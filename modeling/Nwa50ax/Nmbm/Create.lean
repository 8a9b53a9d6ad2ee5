import Nwa50ax.Nmbm.Run

/-!
# Creating the management area

On a chip without a signature the blocks are scanned, the good blocks of the
data area are mapped in order, the signature is written to the last block that
takes it, and the tables are built below it.
-/

namespace Nwa50ax.Nmbm

open ByteBuffer StateProgram

/-! ## Before the tables -/

/-- The step may have turned blocks into bad ones, and has worked on blocks in
`S` only. -/
structure Prepares (S : Set ℕ) (w w' : World) : Prop where
  frame : w'.ni.frame = w.ni.frame
  length : w'.ni.blockState.length = w.ni.blockState.length
  state : ∀ ba, nmbmGetBlockState w'.ni ba = nmbmGetBlockState w.ni ba ∨
    nmbmGetBlockState w'.ni ba = blockStBad
  calls : w'.calls = w.calls
  pattern : w'.pattern = w.pattern
  tableBlocks : w'.tableBlocks = w.tableBlocks
  effects : w.ni.lower.Sound → Effects S w w'

section Prepares

variable {S : Set ℕ} {w w' : World}

theorem Prepares.lower (h : Prepares S w w') : w'.ni.lower = w.ni.lower := by
  have hfield := congrArg Instance.lower h.frame
  exact hfield

theorem Prepares.trans {w₁ w₂ w₃ : World} (h : Prepares S w₁ w₂) (h' : Prepares S w₂ w₃) :
    Prepares S w₁ w₃ where
  frame := h'.frame.trans h.frame
  length := h'.length.trans h.length
  state ba := by
    rcases h'.state ba with hsame | hbad
    · rw [hsame]
      exact h.state ba
    · exact .inr hbad
  calls := h'.calls.trans h.calls
  pattern := h'.pattern.trans h.pattern
  tableBlocks := h'.tableBlocks.trans h.tableBlocks
  effects hsound := (h.effects hsound).trans (h'.effects (h.lower ▸ hsound))

instance : Std.Refl (Prepares S) where
  refl _ := ⟨rfl, rfl, fun _ => .inl rfl, rfl, rfl, rfl, fun _ => Effects.of_eq rfl rfl⟩

instance : IsTrans World (Prepares S) where
  trans _ _ _ := Prepares.trans

theorem Prepares.of_chipStep (h : ChipStep S w w') : Prepares S w w' :=
  ⟨Instance.frame_of_core h.core, congrArg List.length h.blockState,
    fun ba => .inl (h.getBlockState ba), h.calls, h.pattern, h.tableBlocks, h.effects⟩

theorem assignBlockState_bad_prepares (ba : ℕ) :
    Keeps (Prepares S) (assignBlockState ba blockStBad) := by
  intro w
  refine ⟨rfl, length_nmbmSetBlockStateRaw _ _ _, fun b => ?_, rfl, rfl, rfl,
    fun _ => Effects.of_eq rfl rfl⟩
  by_cases hb : b = ba
  · subst b
    by_cases hlen : ba / 16 < w.ni.blockState.length
    · exact .inr (nmbmGetBlockState_setBlockState_self blockStBad hlen)
    · exact .inl (congrArg (nmbmGetBlockStateRaw · ba)
        (nmbmSetBlockStateRaw_of_ge blockStBad (by omega)))
  · exact .inl (nmbmGetBlockState_setBlockState_other _ _ hb)

theorem scanBadblocksFrom_prepares (ba count : ℕ) :
    Keeps (Prepares S) (scanBadblocksFrom ba count) := by
  induction count generalizing ba with
  | zero => exact Keeps.pure ()
  | succ count ih =>
      unfold scanBadblocksFrom
      refine Keeps.bind (fun w => Prepares.of_chipStep
        (nmbmCheckBadPhysBlock_reads ba w).chipStep) fun bad => ?_
      exact (Keeps.when fun _ => assignBlockState_bad_prepares ba).bind fun _ => ih _

theorem nmbmScanBadblocks_prepares : Keeps (Prepares S) nmbmScanBadblocks := by
  intro w
  exact scanBadblocksFrom_prepares 0 w.ni.blockCount w

theorem markBad_prepares {ba : ℕ} (hba : ba ∈ S) : Keeps (Prepares S) (markBad ba) :=
  Keeps.bind (fun _ => Prepares.of_chipStep (Keeps.chipStep (nmbmMarkPhysBadBlock_step hba)))
    fun _ => assignBlockState_bad_prepares ba

theorem writeSignatureFrom_spec (signature : List UInt8) {ba count : ℕ} (hcount : count ≤ ba)
    (w : World) :
    Prepares (Set.Ioc (ba - count) ba) w (writeSignatureFrom signature ba count w).2 ∧
      ∀ found, (writeSignatureFrom signature ba count w).1 = some found →
        ba - count < found ∧ found ≤ ba := by
  induction count generalizing ba w with
  | zero => exact ⟨Std.Refl.refl w, nofun⟩
  | succ count ih =>
      have hmem : ba ∈ Set.Ioc (ba - (count + 1)) ba := ⟨by omega, le_rfl⟩
      have hrange : ba - 1 - count = ba - (count + 1) := by omega
      have hrest : ∀ w₁, Prepares (Set.Ioc (ba - (count + 1)) ba) w w₁ →
          Prepares (Set.Ioc (ba - (count + 1)) ba) w
              (writeSignatureFrom signature (ba - 1) count w₁).2 ∧
            ∀ found, (writeSignatureFrom signature (ba - 1) count w₁).1 = some found →
              ba - (count + 1) < found ∧ found ≤ ba := by
        intro w₁ hprep
        obtain ⟨hstep, hfound⟩ := ih (by omega : count ≤ ba - 1) w₁
        rw [hrange] at hstep hfound
        refine ⟨hprep.trans ⟨hstep.frame, hstep.length, hstep.state, hstep.calls, hstep.pattern,
          hstep.tableBlocks, fun hsound => (hstep.effects hsound).mono ?_⟩, fun found h => ?_⟩
        · exact Set.Ioc_subset_Ioc le_rfl (by omega)
        · have := hfound found h
          omega
      rw [writeSignatureFrom, getNi_bind_run, ite_run]
      by_cases hgood : nmbmGetBlockState w.ni ba ≠ blockStGood
      · rw [if_pos hgood]
        exact hrest w (Std.Refl.refl w)
      · rw [if_neg hgood, bind_run, bind_run]
        have herase : Prepares (Set.Ioc (ba - (count + 1)) ba) w
            (nmbmErasePhysBlock (ba2addr w.ni ba) w).2 :=
          Prepares.of_chipStep ((nmbmErasePhysBlock_chipStep ba rfl).mono
            (Set.singleton_subset_iff.mpr hmem))
        generalize nmbmErasePhysBlock (ba2addr w.ni ba) w = r₁ at herase ⊢
        have hwrite : Prepares (Set.Ioc (ba - (count + 1)) ba) w
            (runIf (r₁.1 = true) false (nmbmWriteRepeatedData ba signature) r₁.2).2 := by
          refine herase.trans (Keeps.runIf (fun _ w => ?_) r₁.2)
          exact Prepares.of_chipStep (Keeps.chipStep (nmbmWriteRepeatedData_step hmem signature))
        generalize runIf (r₁.1 = true) false (nmbmWriteRepeatedData ba signature) r₁.2 = r₂
          at hwrite ⊢
        rw [ite_run]
        by_cases hsuccess : r₂.1 = true
        · rw [if_pos hsuccess]
          refine ⟨hwrite, fun found hfound => ?_⟩
          cases hfound
          exact ⟨by omega, le_rfl⟩
        · rw [if_neg hsuccess]
          exact hrest _ (hwrite.trans (markBad_prepares hmem r₂.2))

theorem nmbmWriteSignature_spec (limit : ℕ) (signature : List UInt8) (w : World) :
    Prepares (Set.Ioo limit w.ni.blockCount) w (nmbmWriteSignature limit signature w).2 ∧
      ∀ found, (nmbmWriteSignature limit signature w).1 = some found →
        limit < found ∧ found < w.ni.blockCount := by
  obtain ⟨hstep, hfound⟩ := writeSignatureFrom_spec signature
    (by omega : w.ni.blockCount - 1 - limit ≤ w.ni.blockCount - 1) w
  refine ⟨⟨hstep.frame, hstep.length, hstep.state, hstep.calls, hstep.pattern, hstep.tableBlocks,
    fun hsound => (hstep.effects hsound).mono fun ba hba => ?_⟩, fun found h => ?_⟩
  · obtain ⟨hlo, hhi⟩ := Set.mem_Ioc.mp hba
    exact Set.mem_Ioo.mpr (by omega)
  · have hrange := hfound found h
    omega

end Prepares

/-! ## The initial mapping -/

/-- The logic blocks are mapped to blocks below the management area, in order. -/
def Built (ni : Instance) : Prop :=
  ∃ usable : List ℕ, usable.Pairwise (· < ·) ∧ (∀ pb ∈ usable, pb < ni.mgmtStartBa) ∧
    ni.dataBlockCount = usable.length ∧
    ni.blockMapping = usable.map (fun pb : ℕ => (pb : ℤ)) ++
      List.replicate (ni.blockCount - usable.length) (-1)

theorem nmbmBuildMappingTable_built (w : World) : Built (nmbmBuildMappingTable w).2.ni := by
  refine ⟨usableBlocks w.ni w.ni.mgmtStartBa, ?_, fun pb hpb => ?_, rfl, rfl⟩
  · exact List.pairwise_lt_range.filter _
  · exact List.mem_range.mp (List.mem_of_mem_filter hpb)

theorem Built.of_frame {ni ni' : Instance} (h : Built ni) (hframe : ni'.frame = ni.frame) :
    Built ni' := by
  have hfields : ni'.mgmtStartBa = ni.mgmtStartBa ∧ ni'.dataBlockCount = ni.dataBlockCount ∧
      ni'.blockMapping = ni.blockMapping ∧ ni'.blockCount = ni.blockCount := by
    have := (Instance.mk.injEq ..).mp hframe
    tauto
  obtain ⟨hmgmt, hdata, hmapping, hcount⟩ := hfields
  unfold Built
  rw [hmgmt, hdata, hmapping, hcount]
  exact h

theorem mgmtStart_lt (ni : Instance) : mgmtStart ni < 2 ^ 32 := by
  unfold mgmtStart
  simp only
  split
  · exact subU32_lt _ _
  · exact (Nat.div_le_self _ _).trans_lt (u32_lt _)

def Instance.chassis (ni : Instance) : Instance :=
  { ni.frame with
    blockMapping := [], dataBlockCount := 0, mgmtStartBa := 0, signatureBa := 0
    signature := ⟨0, 0, 0, 0, 0, 0, 0, 0, 0, 0⟩ }

/-! ## Building the tables -/

structure Prepared (ni : Instance) : Prop where
  sig_lt : ni.signatureBa < ni.blockCount
  count_lt : ni.blockCount < 2 ^ 32
  mgmt_lt : ni.mgmtStartBa < 2 ^ 32

theorem Prepared.walk {ni : Instance} (h : Prepared ni) {top : ℕ}
    (hwalk : nmbmBlockWalk ni false ni.signatureBa 1 ni.mgmtStartBa = some top) :
    ni.mgmtStartBa < top ∧ top < ni.signatureBa ∧ ni.Good top := by
  have hsig := h.sig_lt
  have hlimit : ((ni.mgmtStartBa : ℤ) % 2 ^ 32).toNat = ni.mgmtStartBa := by
    have := h.mgmt_lt
    omega
  have hcap : subU32 ni.blockCount 1 = ni.blockCount - 1 := subU32_one (by omega) h.count_lt
  have hwalk' : walkDescLoop ni ni.signatureBa 1
      (ni.signatureBa - walkLimit ni ni.mgmtStartBa) = some top := by
    rw [← hlimit]
    exact hwalk
  unfold walkLimit at hwalk'
  by_cases hmgmt : ni.mgmtStartBa ≥ ni.blockCount
  · have hzero : ni.signatureBa - (ni.blockCount - 1) = 0 := by omega
    rw [if_pos hmgmt, hcap, hzero] at hwalk'
    cases hwalk'
  · rw [if_neg hmgmt] at hwalk'
    obtain ⟨hlo, hhi, hgood⟩ := walkDescLoop_found (by omega) (by omega) hwalk'
    exact ⟨by omega, by omega, hgood⟩

/-- The world in which `nmbm_create_info_table` builds the tables. -/
def World.atTop (w : World) (top : ℕ) : World :=
  (w.mapNi (·.setTop top)).mapNi Instance.generateCache

theorem nmbmCreateInfoTable_cases {w : World} (hprep : Prepared w.ni) :
    nmbmCreateInfoTable w = (false, w) ∨
      ∃ top w₁, w.ni.mgmtStartBa < top ∧ top < w.ni.signatureBa ∧ w.ni.Good top ∧
        ((nmbmRebuildInfoTable (w.atTop top) = (false, w₁) ∧
            nmbmCreateInfoTable w = (false, w₁)) ∨
          nmbmRebuildInfoTable (w.atTop top) = (true, w₁) ∧
            nmbmCreateInfoTable w = nmbmUpdateInfoTable (remapDataEnd w₁.ni.dataBlockCount
              (w₁.ni.mgmtStartBa - w₁.ni.dataBlockCount) w₁).2) := by
  unfold nmbmCreateInfoTable
  rw [getNi_bind_run]
  cases hwalk : nmbmBlockWalk w.ni false w.ni.signatureBa 1 w.ni.mgmtStartBa with
  | none => exact .inl rfl
  | some top =>
      obtain ⟨hmgmt, hsig, hgood⟩ := hprep.walk hwalk
      have hrun : ∀ f : Bool → Driver Bool,
          (modifyNi (·.setTop top) >>= fun _ => nmbmGenerateInfoTableCache >>= fun _ =>
            nmbmRebuildInfoTable >>= f) w =
          f (nmbmRebuildInfoTable (w.atTop top)).1 (nmbmRebuildInfoTable (w.atTop top)).2 :=
        fun _ => rfl
      simp only
      rw [hrun]
      generalize hrebuild : nmbmRebuildInfoTable (w.atTop top) = r
      rcases r with ⟨success, w₁⟩
      cases success with
      | false => exact .inr ⟨top, w₁, hmgmt, hsig, hgood, .inl ⟨hrebuild, rfl⟩⟩
      | true => exact .inr ⟨top, w₁, hmgmt, hsig, hgood, .inr ⟨hrebuild, rfl⟩⟩

theorem nmbmCreateInfoTable_success {w : World} (hprep : Prepared w.ni)
    (hsuccess : (nmbmCreateInfoTable w).1 = true) :
    ∃ top w₁, w.ni.mgmtStartBa < top ∧ top < w.ni.signatureBa ∧ w.ni.Good top ∧
      nmbmRebuildInfoTable (w.atTop top) = (true, w₁) ∧
      nmbmCreateInfoTable w = nmbmUpdateInfoTable (remapDataEnd w₁.ni.dataBlockCount
        (w₁.ni.mgmtStartBa - w₁.ni.dataBlockCount) w₁).2 := by
  rcases nmbmCreateInfoTable_cases hprep with
    hfail | ⟨top, w₁, hmgmt, hsig, hgood, ⟨-, hfail⟩ | ⟨hrebuild, hrun⟩⟩
  · rw [hfail] at hsuccess
    cases hsuccess
  · rw [hfail] at hsuccess
    cases hsuccess
  · exact ⟨top, w₁, hmgmt, hsig, hgood, hrebuild, hrun⟩

theorem TableCall.confined {ni : Instance} (htop : ni.mappingBlocksTopBa < ni.signatureBa)
    {c : Call} (h : TableCall ni c) : c.Confined := by
  cases c with
  | mgmtBlock n ba =>
      obtain ⟨hround, hlo, hhi⟩ := h
      obtain ⟨hmgmt, htop', hsig⟩ := Instance.setup_bounds (Instance.setup_of_round hround)
      exact ⟨hmgmt.le.trans hlo, hhi.trans_le htop'.ge, htop'.trans_lt (htop.trans_le hsig.ge)⟩
  | _ => trivial

theorem TableStep.continues {w w' : World} (h : TableStep w w')
    (htables : Tables (fun _ => True) (fun _ => True) w')
    (htop : w.ni.mappingBlocksTopBa < w.ni.signatureBa)
    (hsig : w.ni.signatureBa < w.ni.blockCount) (hcount : w.ni.blockCount < 2 ^ 32) :
    Continues w w' := by
  have hcount' : w'.ni.blockCount = w.ni.blockCount := by
    have hfield := congrArg Instance.blockCount h.round
    exact hfield
  obtain ⟨calls, hcalls, htable, -⟩ := h.calls
  exact ⟨⟨htables, h.signatureBa ▸ hcount' ▸ hsig, hcount' ▸ hcount⟩,
    calls, hcalls, fun c hc => (htable c hc).confined htop⟩

theorem Attached.addDataBlock {w : World} (h : Attached w) :
    Continues w (w.mapNi Instance.addDataBlock) :=
  h.mapNi rfl rfl h.tables.map_le h.tables.top_lt

theorem remapDataEnd_succ (lb count : ℕ) (w : World) :
    (remapDataEnd lb (count + 1) w).2 =
      if (nmbmMapBlock lb w).1 = true then
        (remapDataEnd (lb + 1) count ((nmbmMapBlock lb w).2.mapNi Instance.addDataBlock)).2
      else (nmbmMapBlock lb w).2 := by
  rw [remapDataEnd, bind_run, ite_run]
  split <;> rfl

theorem remapDataEnd_continues {w : World} (h : Attached w) (lb count : ℕ) :
    Continues w (remapDataEnd lb count w).2 := by
  induction count generalizing lb w with
  | zero => exact ⟨h, [], (List.append_nil _).symm, by simp⟩
  | succ count ih =>
      have hmap := h.map lb
      rw [remapDataEnd_succ]
      split
      · have hadd := hmap.attached.addDataBlock
        exact (hmap.trans hadd).trans (ih hadd.attached (lb + 1))
      · exact hmap

theorem remapDataEnd_invariant {P : World → Prop} {C : Call → Prop}
    (hmap : ∀ lb w, Attached w → (∀ c ∈ (nmbmMapBlock lb w).2.calls, C c) → P w →
      P (nmbmMapBlock lb w).2)
    (hadd : ∀ w, P w → P (w.mapNi Instance.addDataBlock))
    {w : World} (h : Attached w) (lb count : ℕ)
    (hcalls : ∀ c ∈ (remapDataEnd lb count w).2.calls, C c) (hinit : P w) :
    P (remapDataEnd lb count w).2 := by
  induction count generalizing lb w with
  | zero => exact hinit
  | succ count ih =>
      have hattached := (h.map lb).attached
      rw [remapDataEnd_succ] at hcalls ⊢
      split
      · rename_i hsuccess
        rw [if_pos hsuccess] at hcalls
        have hrest := remapDataEnd_continues hattached.addDataBlock.attached (lb + 1) count
        have hfirst : P (nmbmMapBlock lb w).2 :=
          hmap lb w h (fun c hc => hcalls c (hrest.mem_calls hc)) hinit
        exact ih hattached.addDataBlock.attached (lb + 1) hcalls (hadd _ hfirst)
      · rename_i hfail
        rw [if_neg hfail] at hcalls
        exact hmap lb w h hcalls hinit

theorem Prepared.rebuild {w : World} {top : ℕ} (h : Prepared w.ni)
    (hmgmt : w.ni.mgmtStartBa < top) (hsig : top < w.ni.signatureBa) :
    Continues w (nmbmRebuildInfoTable (w.atTop top)).2 := by
  have hwrites := nmbmRebuildInfoTable_rewrites
    (generateCache_cacheSat (w.mapNi (·.setTop top)).ni) (w := w.atTop top) hmgmt.le hsig
  obtain ⟨hattached, hcalls⟩ :=
    hwrites.step.continues hwrites.layout hsig h.sig_lt h.count_lt
  exact ⟨hattached, hcalls⟩

/-- Induction along creation, for invariants that do not depend on the number
of data blocks and hold once the tables have been built. -/
theorem nmbmCreateInfoTable_invariant {P : World → Prop} {C : Call → Prop}
    (hmap : ∀ lb w, Attached w → (∀ c ∈ (nmbmMapBlock lb w).2.calls, C c) → P w →
      P (nmbmMapBlock lb w).2)
    (hadd : ∀ w, P w → P (w.mapNi Instance.addDataBlock))
    (hupdate : ∀ w, Attached w → (∀ c ∈ (nmbmUpdateInfoTable w).2.calls, C c) → P w →
      P (nmbmUpdateInfoTable w).2)
    {w w' : World} (hprep : Prepared w.ni) (hrun : nmbmCreateInfoTable w = (true, w'))
    (hcalls : ∀ c ∈ w'.calls, C c)
    (hinit : ∀ top w₁, w.ni.mgmtStartBa < top → top < w.ni.signatureBa → w.ni.Good top →
      nmbmRebuildInfoTable (w.atTop top) = (true, w₁) → (∀ c ∈ w₁.calls, C c) → P w₁) :
    Continues w w' ∧ P w' := by
  obtain ⟨top, w₁, hmgmt, hsig, hgood, hrebuild, hsplit⟩ :=
    nmbmCreateInfoTable_success hprep (congrArg Prod.fst hrun)
  have hbuilt := hprep.rebuild hmgmt hsig
  rw [hrebuild] at hbuilt
  have hmapped := remapDataEnd_continues hbuilt.attached w₁.ni.dataBlockCount
    (w₁.ni.mgmtStartBa - w₁.ni.dataBlockCount)
  have hupdated := hmapped.attached.update
  obtain rfl : w' = (nmbmUpdateInfoTable (remapDataEnd w₁.ni.dataBlockCount
      (w₁.ni.mgmtStartBa - w₁.ni.dataBlockCount) w₁).2).2 := by
    rw [← hsplit, hrun]
  refine ⟨(hbuilt.trans hmapped).trans hupdated, ?_⟩
  refine hupdate _ hmapped.attached hcalls ?_
  have hcalls₂ := fun c hc => hcalls c (hupdated.mem_calls hc)
  refine remapDataEnd_invariant hmap hadd hbuilt.attached _ _ hcalls₂ ?_
  exact hinit top w₁ hmgmt hsig hgood hrebuild fun c hc => hcalls₂ c (hmapped.mem_calls hc)

/-! ## A new chip -/

structure Formatted (w w' : World) : Prop where
  built : Built w'.ni
  prepared : Prepared w'.ni
  mgmt : w'.ni.mgmtStartBa = mgmtStart w.ni
  mgmt_lt : w'.ni.mgmtStartBa < w'.ni.signatureBa
  chassis : w'.ni.chassis = w.ni.chassis
  length : w'.ni.blockState.length = w.ni.blockState.length
  calls : w'.calls = w.calls
  pattern : w'.pattern = w.pattern
  tableBlocks : w'.tableBlocks = w.tableBlocks
  effects : w.ni.lower.Sound → Effects (Set.Ioo w'.ni.mgmtStartBa w'.ni.blockCount) w w'

theorem nmbmCreateNew_cases {w : World} (hcount : w.ni.blockCount < 2 ^ 32) :
    (∃ w', nmbmCreateNew w = (false, w') ∧ w'.ni.mainTableBa = w.ni.mainTableBa ∧
        w'.calls = w.calls) ∨
      ∃ w', Formatted w w' ∧ nmbmCreateNew w = nmbmCreateInfoTable w' := by
  unfold nmbmCreateNew
  rw [bind_run, modifyNi_run, bind_run, bind_run, getNi_bind_run, bind_run, modifyNi_run,
    bind_run]
  have hscan : Prepares ∅ (w.mapNi fun ni => ni.setMgmtStart (mgmtStart ni))
      (nmbmScanBadblocks (w.mapNi fun ni => ni.setMgmtStart (mgmtStart ni))).2 :=
    nmbmScanBadblocks_prepares _
  generalize (nmbmScanBadblocks (w.mapNi fun ni => ni.setMgmtStart (mgmtStart ni))).2 =
    w₁ at hscan ⊢
  have hbuilt := nmbmBuildMappingTable_built w₁
  have hchassis₁ : w₁.ni.chassis = w.ni.chassis := by
    have hframe := congrArg Instance.chassis hscan.frame
    exact hframe
  have hmgmt₁ : w₁.ni.mgmtStartBa = mgmtStart w.ni := by
    have hfield := congrArg Instance.mgmtStartBa hscan.frame
    exact hfield
  have hcount₁ : w₁.ni.blockCount = w.ni.blockCount := by
    have hfield := congrArg Instance.blockCount hscan.frame
    exact hfield
  generalize nmbmUpdateChecksum (newSignature (nmbmBuildMappingTable w₁).2.ni).toBytes
    signatureBytes = bytes
  have hbuild : Built ((nmbmBuildMappingTable w₁).2.mapNi
      (·.setSignature (Signature.ofBytes bytes))).ni := hbuilt
  have hwrite := nmbmWriteSignature_spec w₁.ni.mgmtStartBa bytes
    ((nmbmBuildMappingTable w₁).2.mapNi (·.setSignature (Signature.ofBytes bytes)))
  obtain ⟨hsign, hfound⟩ := hwrite
  have hmgmt₂ : (nmbmBuildMappingTable w₁).2.ni.mgmtStartBa = w₁.ni.mgmtStartBa := rfl
  rw [hmgmt₂]
  generalize nmbmWriteSignature w₁.ni.mgmtStartBa bytes
    ((nmbmBuildMappingTable w₁).2.mapNi (·.setSignature (Signature.ofBytes bytes))) = r at hsign hfound ⊢
  rcases r with ⟨found, w₂⟩
  cases found with
  | none =>
      refine .inl ⟨w₂, rfl, ?_, hsign.calls.trans hscan.calls⟩
      have hsigned := congrArg Instance.mainTableBa hsign.frame
      have hscanned := congrArg Instance.mainTableBa hscan.frame
      exact Eq.trans hsigned hscanned
  | some ba =>
      obtain ⟨hlo, hhi⟩ := hfound ba rfl
      have hmgmt : w₂.ni.mgmtStartBa = w₁.ni.mgmtStartBa := by
        have hfield := congrArg Instance.mgmtStartBa hsign.frame
        exact hfield
      have hcount₂ : w₂.ni.blockCount = w₁.ni.blockCount := by
        have hfield := congrArg Instance.blockCount hsign.frame
        exact hfield
      refine .inr ⟨w₂.mapNi (·.setSignatureBa ba), ?_, rfl⟩
      constructor
      · have hkept : Built w₂.ni := hbuild.of_frame hsign.frame
        exact hkept
      · refine ⟨?_, ?_, ?_⟩
        · exact hhi.trans_le hcount₂.ge
        · exact (hcount₂.trans hcount₁).trans_lt hcount
        · exact (hmgmt.trans hmgmt₁).trans_lt (mgmtStart_lt w.ni)
      · exact hmgmt.trans hmgmt₁
      · exact hmgmt.trans_lt hlo
      · have hframe := congrArg Instance.chassis hsign.frame
        exact Eq.trans hframe hchassis₁
      · exact hsign.length.trans hscan.length
      · exact hsign.calls.trans hscan.calls
      · exact hsign.pattern.trans hscan.pattern
      · exact hsign.tableBlocks.trans hscan.tableBlocks
      · intro hsound
        have hscanned := (hscan.effects hsound).mono (Set.empty_subset
          (Set.Ioo w₂.ni.mgmtStartBa w₂.ni.blockCount))
        have hsigned := hsign.effects (hscan.lower ▸ hsound)
        exact hscanned.trans (hmgmt ▸ hcount₂ ▸ hsigned)

/-! ## A blank chip -/

def Flash.Blank (flash : Flash) (writesize : ℕ) : Prop :=
  ∀ ba pg, (flash.pages ba pg).data = List.replicate writesize 0xff

/-- The number of bytes that one round of `nmbn_read_data` delivers. -/
def chunkSize (writesize off size : ℕ) : ℕ := min (writesize - off % writesize) size

theorem readDataLoop_succ {off fuel size : ℕ} {w : World} (hsize : size ≠ 0)
    (hret : (readDataLoop off (fuel + 1) size w).1.1 = 0) :
    ∃ w₁, ReadStep w w₁ ∧
      (readDataLoop (off + chunkSize w.ni.writesize off size) fuel
        (size - chunkSize w.ni.writesize off size) w₁).1.1 = 0 ∧
      (readDataLoop off (fuel + 1) size w).1.2 =
        slice (w.flash.pages (blockOf w.ni (off - off % w.ni.writesize))
          (pageOf w.ni (off - off % w.ni.writesize))).data (off % w.ni.writesize)
          (chunkSize w.ni.writesize off size) ++
        (readDataLoop (off + chunkSize w.ni.writesize off size) fuel
          (size - chunkSize w.ni.writesize off size) w₁).1.2 := by
  rw [readDataLoop, ite_run, if_neg hsize, getNi_bind_run, bind_run] at hret ⊢
  have hread := nmbmReadPhysPage_reads (off - off % w.ni.writesize) w
  have hpage := (nmbmReadPhysPage_result (off - off % w.ni.writesize) w).2
  generalize nmbmReadPhysPage (off - off % w.ni.writesize) w = r at hread hpage hret ⊢
  rw [bind_run] at hret ⊢
  have hcache : ReadStep w (StateProgram.when
      (min (w.ni.writesize - off % w.ni.writesize) size ≠ w.ni.writesize)
      (setPageCache (overwrite w.ni.pageCache 0 r.1.2.data)) r.2).2 :=
    IsTrans.trans _ _ _ hread (Keeps.when (fun _ => setPageCache_reads _) r.2)
  generalize (StateProgram.when
    (min (w.ni.writesize - off % w.ni.writesize) size ≠ w.ni.writesize)
    (setPageCache (overwrite w.ni.pageCache 0 r.1.2.data)) r.2).2 = w₁ at hcache hret ⊢
  rw [ite_run] at hret ⊢
  by_cases hfail : r.1.1 ≠ 0
  · rw [if_pos hfail] at hret
    exact absurd hret hfail
  · rw [if_neg hfail] at hret ⊢
    rw [← hpage (not_not.mp hfail)]
    exact ⟨w₁, hcache, hret, rfl⟩

theorem ReadStep.writesize {w w' : World} (h : ReadStep w w') :
    w'.ni.writesize = w.ni.writesize := by
  unfold Instance.writesize
  rw [h.lower]

theorem readDataLoop_blank {off fuel size : ℕ} {w : World} (hws : 0 < w.ni.writesize)
    (hblank : w.flash.Blank w.ni.writesize) (hfuel : size ≤ fuel)
    (hret : (readDataLoop off fuel size w).1.1 = 0) :
    (readDataLoop off fuel size w).1.2 = List.replicate size 0xff := by
  induction fuel generalizing off size w with
  | zero =>
      obtain rfl : size = 0 := by omega
      rfl
  | succ fuel ih =>
      by_cases hsize : size = 0
      · subst hsize
        rfl
      have hleading := Nat.mod_lt off hws
      have hchunk : chunkSize w.ni.writesize off size ≤ size ∧
          chunkSize w.ni.writesize off size ≤ w.ni.writesize - off % w.ni.writesize ∧
          0 < chunkSize w.ni.writesize off size := by
        unfold chunkSize
        omega
      obtain ⟨w₁, hread, hret₁, hdata⟩ := readDataLoop_succ hsize hret
      have hrest := ih (hread.writesize ▸ hws) (hread.flash ▸ hread.writesize ▸ hblank)
        (by omega) hret₁
      rw [hdata, hrest, hblank, slice, List.drop_replicate, List.take_replicate,
        List.replicate_append_replicate]
      congr 1
      omega

theorem findSignatureInPages_blank {addr count : ℕ} {w : World} (hws : 0 < w.ni.writesize)
    (hblank : w.flash.Blank w.ni.writesize) : (findSignatureInPages addr count w).1 = none := by
  induction count generalizing addr w with
  | zero => rfl
  | succ count ih =>
      rw [findSignatureInPages, getNi_bind_run, bind_run, ite_run]
      have hread := nmbnReadData_reads addr signatureBytes w
      have hdata : (nmbnReadData addr signatureBytes w).1.1 = 0 →
          (nmbnReadData addr signatureBytes w).1.2 = List.replicate signatureBytes 0xff :=
        readDataLoop_blank hws hblank le_rfl
      generalize nmbnReadData addr signatureBytes w = r at hread hdata ⊢
      have hnone : ¬(r.1.1 = 0 ∧ nmbmCheckHeader r.1.2 signatureBytes = true ∧
          (Signature.ofBytes r.1.2).magic = nmbmMagicSignature) := by
        rintro ⟨hret, hheader, -⟩
        rw [hdata hret] at hheader
        revert hheader
        decide
      rw [if_neg hnone]
      exact ih (hread.writesize ▸ hws) (hread.flash ▸ hread.writesize ▸ hblank)

theorem findSignatureLoop_blank {limit ba fuel : ℕ} {w : World} (hws : 0 < w.ni.writesize)
    (hblank : w.flash.Blank w.ni.writesize) : (findSignatureLoop limit ba fuel w).1 = none := by
  induction fuel generalizing ba w with
  | zero => rfl
  | succ fuel ih =>
      rw [findSignatureLoop, ite_run]
      split
      · rfl
      rw [getNi_bind_run, bind_run, ite_run]
      have hcheck := nmbmCheckBadPhysBlock_reads (subU32 ba 1) w
      generalize nmbmCheckBadPhysBlock (subU32 ba 1) w = r at hcheck ⊢
      split
      · exact ih (hcheck.writesize ▸ hws) (hcheck.flash ▸ hcheck.writesize ▸ hblank)
      · have hnone : (findSignatureInPages (ba2addr w.ni (subU32 ba 1)) w.ni.pagesPerBlock r.2).1 =
            none :=
          findSignatureInPages_blank (hcheck.writesize ▸ hws)
            (hcheck.flash ▸ hcheck.writesize ▸ hblank)
        have hread := IsTrans.trans _ _ _ hcheck
          (findSignatureInPages_reads (ba2addr w.ni (subU32 ba 1)) w.ni.pagesPerBlock r.2)
        rw [bind_run, hnone]
        exact ih (hread.writesize ▸ hws) (hread.flash ▸ hread.writesize ▸ hblank)

/-! ## Attaching to a blank chip -/

theorem pos_of_isPowerOf2 {n : ℕ} (h : isPowerOf2 n = true) : 0 < n := by
  simp only [isPowerOf2, decide_eq_true_eq] at h
  exact Nat.pos_of_ne_zero h.1

theorem isPowerOf2_eq {n : ℕ} (h : isPowerOf2 n = true) : n = 2 ^ Nat.log2 n := by
  simp only [isPowerOf2, decide_eq_true_eq] at h
  obtain ⟨k, hk⟩ := (Nat.and_sub_one_eq_zero_iff_isPowerOfTwo h.1).mp h.2
  rw [hk, Nat.log2_two_pow]

/-- An accepted device has a geometry of powers of two, and is taken as it is
apart from the ratio. -/
structure AcceptedAs (nld accepted : LowerDevice) : Prop where
  device : accepted = { nld with maxRatio := accepted.maxRatio }
  size : isPowerOf2 nld.size.toNat = true
  erasesize : isPowerOf2 nld.erasesize.toNat = true
  writesize : isPowerOf2 nld.writesize.toNat = true
  ratio_lt : accepted.maxRatio.toNat < nmbmMgmtDiv - 1
  reserved : accepted.maxReservedBlocks ≠ 0 →
    nmbmMgmtBlocksMin ≤ accepted.maxReservedBlocks.toNat

theorem nmbmCheckLowerMembers_accepted {nld accepted : LowerDevice}
    (h : nmbmCheckLowerMembers nld = some accepted) : AcceptedAs nld accepted := by
  unfold nmbmCheckLowerMembers at h
  split at h
  · cases h
  split at h
  · cases h
  split at h
  · cases h
  split at h
  · cases h
  rename_i hsize herase hwrite _
  have hdevice : ∀ dev : LowerDevice,
      (if nld.maxRatio = 0 then { nld with maxRatio := 1 } else nld) = dev →
      dev = { nld with maxRatio := dev.maxRatio } := by
    rintro dev rfl
    split <;> rfl
  generalize hdev : (if nld.maxRatio = 0 then { nld with maxRatio := 1 } else nld) = dev at h
  dsimp only at h
  by_cases hratio : dev.maxRatio.toNat ≥ nmbmMgmtDiv - 1
  · rw [if_pos hratio] at h
    cases h
  rw [if_neg hratio] at h
  by_cases hreserved : dev.maxReservedBlocks ≠ 0 ∧ dev.maxReservedBlocks.toNat < nmbmMgmtBlocksMin
  · rw [if_pos hreserved] at h
    cases h
  rw [if_neg hreserved] at h
  cases h
  refine ⟨hdevice _ hdev, Bool.not_eq_false _ ▸ hsize, Bool.not_eq_false _ ▸ herase,
    Bool.not_eq_false _ ▸ hwrite, not_le.mp hratio, fun hne => ?_⟩
  by_contra hlt
  exact hreserved ⟨hne, not_le.mp hlt⟩

theorem nmbmInitStructure_lower (nld : LowerDevice) : (nmbmInitStructure nld).lower = nld := rfl

/-- Attaching to a blank chip that succeeds has formatted the chip and created
the tables. -/
structure AttachedBlank (nld : LowerDevice) (w w₀ w₁ w' : World) : Prop where
  accepted : ∃ accepted, AcceptedAs nld accepted ∧
    ReadStep (w.mapNi fun _ => nmbmInitStructure accepted) w₀
  formatted : Formatted w₀ w₁
  created : nmbmCreateInfoTable w₁ = (true, w')

theorem nmbmAttach_blank {nld : LowerDevice} {w : World}
    (hblank : w.flash.Blank nld.writesize.toNat) (hret : (nmbmAttach nld w).1 = 0) :
    ∃ w₀ w₁, AttachedBlank nld w w₀ w₁ (nmbmAttach nld w).2 := by
  unfold nmbmAttach at hret ⊢
  cases hcheck : nmbmCheckLowerMembers nld with
  | none =>
      rw [hcheck] at hret
      have hfail : (-einval : ℤ) = 0 := hret
      exact absurd hfail (by decide)
  | some accepted =>
      have haccepted := nmbmCheckLowerMembers_accepted hcheck
      rw [hcheck] at hret
      simp only [bind_run, modifyNi_run] at hret ⊢
      have hwritesize : accepted.writesize = nld.writesize := by
        have hfield := congrArg LowerDevice.writesize haccepted.device
        exact hfield
      have hnone : (nmbmFindSignature (w.mapNi fun _ => nmbmInitStructure accepted)).1 = none := by
        refine findSignatureLoop_blank ?_ ?_
        · change 0 < accepted.writesize.toNat
          rw [hwritesize]
          exact pos_of_isPowerOf2 haccepted.writesize
        · change w.flash.Blank accepted.writesize.toNat
          rw [hwritesize]
          exact hblank
      have hread := nmbmFindSignature_reads (w.mapNi fun _ => nmbmInitStructure accepted)
      generalize nmbmFindSignature (w.mapNi fun _ => nmbmInitStructure accepted) = r
        at hnone hread hret ⊢
      rcases r with ⟨found, w₀⟩
      cases hnone
      simp only [ite_run] at hret ⊢
      by_cases hcreate : accepted.flagCreate = false
      · rw [if_pos hcreate] at hret
        have hfail : (-enodev : ℤ) = 0 := hret
        exact absurd hfail (by decide)
      rw [if_neg hcreate] at hret ⊢
      have hcount : w₀.ni.blockCount < 2 ^ 32 := by
        have hfield := congrArg Instance.blockCount hread.core
        exact lt_of_eq_of_lt hfield (u32_lt _)
      have hsuccess : (nmbmCreateNew w₀).1 = true := by
        by_contra hfalse
        have hfail : (if (nmbmCreateNew w₀).1 = true then 0 else -enodev) = 0 := hret
        rw [if_neg hfalse] at hfail
        exact absurd hfail (by decide)
      obtain ⟨w₁, hfail, -⟩ | ⟨w₁, hformatted, hrun⟩ := nmbmCreateNew_cases hcount
      · rw [hfail] at hsuccess
        cases hsuccess
      refine ⟨w₀, w₁, ⟨accepted, haccepted, hread⟩, hformatted, ?_⟩
      rw [← hrun]
      exact Prod.ext hsuccess rfl

structure FreshAttach (nld : LowerDevice) (flash : Flash) (pattern : ℕ → Response) (w : World) :
    Prop where
  blocks : 16 ≤ blockCountOf nld
  blank : flash.Blank nld.writesize.toNat
  run : nmbmAttach nld (World.powerOn nld flash pattern) = (0, w)

theorem FreshAttach.attachedBlank {nld : LowerDevice} {flash : Flash} {pattern : ℕ → Response}
    {w : World} (h : FreshAttach nld flash pattern w) :
    ∃ w₀ w₁, AttachedBlank nld (World.powerOn nld flash pattern) w₀ w₁ w := by
  have hattach := nmbmAttach_blank (w := World.powerOn nld flash pattern) h.blank
    (congrArg Prod.fst h.run)
  rw [h.run] at hattach
  exact hattach

theorem FreshAttach.attached {nld : LowerDevice} {flash : Flash} {pattern : ℕ → Response}
    {w : World} (h : FreshAttach nld flash pattern w) : Attached w := by
  obtain ⟨w₀, w₁, hblank⟩ := h.attachedBlank
  exact (nmbmCreateInfoTable_invariant (P := fun _ => True) (C := fun _ => True)
    (fun _ _ _ _ _ => trivial) (fun _ _ => trivial) (fun _ _ _ _ => trivial)
    hblank.formatted.prepared hblank.created (fun _ _ => trivial)
    (fun _ _ _ _ _ _ _ => trivial)).1.attached

end Nwa50ax.Nmbm
