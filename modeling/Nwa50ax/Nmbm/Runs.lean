import Nwa50ax.Nmbm.Ownership

/-!
# Runs on a failing chip

Whatever the chip does after a device has been attached to a new chip: the
management area keeps its layout, the retry loops end, and a device that has become
read-only touches the chip for nothing but requests to mark a block bad.
-/

namespace Nwa50ax.Nmbm

open StateProgram

/-! ## The layout -/

section Runs

variable {nld : LowerDevice} {flash : Flash} {pattern : ℕ → Response} {w₀ w : World}
  {ops : List Op}

theorem FreshAttach.continues (h : FreshAttach nld flash pattern w₀) (hrun : runOps ops w₀ = ((), w)) :
    Continues w₀ w := by
  have hsteps := runOps_opSteps ops w₀
  rw [hrun] at hsteps
  exact hsteps.continues h.attached

theorem FreshAttach.confined (h : FreshAttach nld flash pattern w) : ∀ c ∈ w.calls, c.Confined := by
  obtain ⟨w₀, w₁, ⟨_, -, hread⟩, hformatted, hcreated⟩ := h.attachedBlank
  have hcontinues := (nmbmCreateInfoTable_invariant (P := fun _ => True) (C := fun _ => True)
    (fun _ _ _ _ _ => trivial) (fun _ _ => trivial) (fun _ _ _ _ => trivial)
    hformatted.prepared hcreated (fun _ _ => trivial) (fun _ _ _ _ _ _ _ => trivial)).1
  obtain ⟨calls, hcalls, hconfined⟩ := hcontinues.calls
  have hnil : w₁.calls = [] := hformatted.calls.trans hread.calls
  rw [hcalls, hnil]
  exact hconfined

/-- In every run, whatever fails: the tables, the spare blocks that are left and the
signature lie behind each other in this order, and every management block that has
been erased or written was, at that moment, in the area between the start of the
management area and the spare blocks that had been handed out. -/
theorem management_area_laid_out (hattach : FreshAttach nld flash pattern w₀)
    (hrun : runOps ops w₀ = ((), w)) :
    w.ni.mgmtStartBa ≤ w.ni.mappingBlocksBa ∧
      w.ni.mappingBlocksBa ≤ w.ni.mappingBlocksTopBa ∧
      w.ni.mappingBlocksTopBa < w.ni.signatureBa ∧ w.ni.signatureBa < w.ni.blockCount ∧
      (w.ni.mainTableBa ≠ 0 → ∀ ba ∈ w.tableBlocks w.ni.mainTableBa,
        w.ni.mgmtStartBa ≤ ba ∧ ba < w.ni.mainLimit) ∧
      (w.ni.backupTableBa ≠ 0 → ∀ ba ∈ w.tableBlocks w.ni.backupTableBa,
        w.ni.mgmtStartBa ≤ ba ∧ ba < w.ni.mappingBlocksBa) ∧
      ∀ ni ba, Call.mgmtBlock ni ba ∈ w.calls →
        ni.mgmtStartBa ≤ ba ∧ ba < ni.mappingBlocksTopBa ∧
          ni.mappingBlocksTopBa < ni.signatureBa := by
  obtain ⟨⟨htables, hsig, -⟩, calls, hcalls, hconfined⟩ := hattach.continues hrun
  refine ⟨htables.mgmt_le, htables.map_le, htables.top_lt, hsig, fun hne ba hba => ?_,
    fun hne ba hba => ?_, fun ni ba hc => ?_⟩
  · have hmain := htables.main hne
    exact ⟨hmain.lo_le.trans (hmain.start_le ba hba), hmain.lt_hi ba hba⟩
  · have hbackup := htables.backup hne
    exact ⟨hbackup.lo_le.trans (hbackup.start_le ba hba), hbackup.lt_hi ba hba⟩
  · rw [hcalls] at hc
    rcases List.mem_append.mp hc with hold | hnew
    · exact hattach.confined _ hold
    · exact hconfined _ hnew

end Runs

/-- The run that marks a block of the small chip bad and erases another one. -/
def markedRun : World := (runOps [.markBad 0, .erase 256 256] (smallAttach 8 [0]).2).2

theorem markedRun_run :
    runOps [.markBad 0, .erase 256 256] (smallAttach 8 [0]).2 = ((), markedRun) := Prod.ext rfl rfl

theorem smallAttach_ret : (smallAttach 8 [0]).1 = 0 := by decide +kernel

theorem management_area_laid_out_small :
    markedRun.ni.mainTableBa = 8 ∧ markedRun.ni.backupTableBa = 11 ∧
      ∀ ba ∈ markedRun.tableBlocks 8, 8 ≤ ba ∧ ba < 11 := by
  have hfields : (fun w : World => (w.ni.mgmtStartBa, w.ni.mainTableBa, w.ni.backupTableBa))
      markedRun = (8, 8, 11) := by
    decide +kernel
  simp only [Prod.mk.injEq] at hfields
  obtain ⟨hmgmt, hmain, hbackup⟩ := hfields
  obtain ⟨-, -, -, -, hblocks, -⟩ := management_area_laid_out (smallAttach_fresh smallAttach_ret)
    markedRun_run
  have hlimit : markedRun.ni.mainLimit = 11 := by rw [Instance.mainLimit, hbackup]; rfl
  rw [hmgmt, hmain, hlimit] at hblocks
  exact ⟨hmain, hbackup, hblocks (by decide)⟩

/-! ## Erasing -/

section Erase

variable {lb pb : ℕ} {w : World}

theorem markBad_top (pb : ℕ) (w : World) :
    (markBad pb w).2.ni.mappingBlocksTopBa = w.ni.mappingBlocksTopBa := by
  have hchip : ChipStep {pb} w (nmbmMarkPhysBadBlock pb w).2 :=
    Keeps.chipStep (nmbmMarkPhysBadBlock_step (Set.mem_singleton pb))
  have hfield := congrArg Instance.mappingBlocksTopBa hchip.core
  exact hfield

theorem remapLogicBlock_run (lb pb : ℕ) (w : World) :
    ∃ f : Instance → Instance, (f = id ∨ ∃ pb, f = (·.setBlockState pb blockStBad)) ∧ ∀ again,
      remapLogicBlock lb pb again w =
        if (nmbmMapBlock lb w).1 = true then
          again (nmbmUpdateInfoTable (StateProgram.when
            (nmbmGetBlockState (nmbmMapBlock lb w).2.ni pb ≠ blockStNeedRemap)
            (assignBlockState pb blockStBad) (nmbmMapBlock lb w).2).2).2
        else (-eio, (nmbmUpdateInfoTable (record .unmapBlock
          (((nmbmMapBlock lb w).2.mapNi (·.unmap lb)).mapNi f)).2).2) := by
  unfold remapLogicBlock
  simp only [bind_run]
  generalize nmbmMapBlock lb w = r
  rcases r with ⟨_ | _, w₁⟩
  · have hstate : ∃ f : Instance → Instance, (f = id ∨ ∃ pb, f = (·.setBlockState pb blockStBad)) ∧
        (w₁.mapNi (·.unmap lb)).mapNi f = (StateProgram.when
          (nmbmGetBlockState (w₁.mapNi (·.unmap lb)).ni pb ≠ blockStNeedRemap)
          (assignBlockState pb blockStBad) (w₁.mapNi (·.unmap lb))).2 := by
      rw [when_run]
      split
      · exact ⟨_, .inr ⟨pb, rfl⟩, rfl⟩
      · exact ⟨id, .inl rfl, rfl⟩
    obtain ⟨f, hf, hrun⟩ := hstate
    refine ⟨f, hf, fun again => ?_⟩
    rw [hrun]
    rfl
  · exact ⟨id, .inl rfl, fun again => rfl⟩

/-- The block has been erased, or its logic block has been given up. -/
def Settled (lb : ℕ) (result : ℤ × World) : Prop :=
  result.1 = 0 ∨ result.1 = -eio ∧ result.2.ni.blockMapping.getD lb (-1) < 0

theorem abandoned_settled (h : Attached w) {f : Instance → Instance}
    (hf : f = id ∨ ∃ pb, f = (·.setBlockState pb blockStBad)) : Settled lb (-eio,
      (nmbmUpdateInfoTable (record .unmapBlock ((w.mapNi (·.unmap lb)).mapNi f)).2).2) := by
  have hstep : OpStep lb w _ := OpStep.abandon w f hf
  have hattached := (hstep.continues h).attached
  have hsetup := (nmbmUpdateInfoTable_layout hattached.tables).1.setup
  generalize (nmbmUpdateInfoTable (record .unmapBlock ((w.mapNi (·.unmap lb)).mapNi f)).2).2 = w'
    at hsetup ⊢
  have hmapping : w'.ni.blockMapping = w.ni.blockMapping.set lb (-1) := by
    rcases hf with rfl | ⟨pb, rfl⟩
    · exact (congrArg Instance.blockMapping hsetup :)
    · exact (congrArg Instance.blockMapping hsetup :)
  refine .inr ⟨rfl, ?_⟩
  show w'.ni.blockMapping.getD lb (-1) < 0
  rw [hmapping, List.getD_eq_getElem?_getD, List.getElem?_set_self']
  cases w.ni.blockMapping[lb]? with
  | none => decide
  | some entry => exact Int.negSucc_lt_zero 0

/-- A block that is to be replaced: either there is no spare block, or the erasure
is tried again with one spare block less. -/
theorem remapLogicBlock_cases (h : Attached w) (lb pb : ℕ) :
    (∃ result, Settled lb result ∧ ∀ again, remapLogicBlock lb pb again w = result) ∨
      ∃ w₁, Attached w₁ ∧ w₁.ni.mappingBlocksTopBa < w.ni.mappingBlocksTopBa ∧
        ∀ again, remapLogicBlock lb pb again w = again w₁ := by
  obtain ⟨f, hf, hremap⟩ := remapLogicBlock_run lb pb w
  have hmapped := h.map lb
  rcases nmbmMapBlock_cases h.bounded lb with ⟨-, hrun⟩ | ⟨-, hrun⟩ | ⟨pb', hlo, hhi, -, -, hrun⟩
  · rw [hrun] at hremap hmapped
    exact .inl ⟨_, abandoned_settled hmapped.attached hf, hremap⟩
  · rw [hrun] at hremap hmapped
    exact .inl ⟨_, abandoned_settled hmapped.attached hf, hremap⟩
  · rw [hrun] at hremap hmapped
    have hpos : 0 < w.ni.mappingBlocksTopBa := by omega
    have htop : ((record .mapBlock w).2.mapNi (·.mapTo lb pb')).ni.mappingBlocksTopBa =
        w.ni.mappingBlocksTopBa - 1 :=
      subU32_one hpos (h.tables.top_lt.trans (h.sig_lt.trans h.count_lt))
    have hattached := hmapped.attached
    generalize (record .mapBlock w).2.mapNi (·.mapTo lb pb') = w₁ at hremap hattached htop
    have hstate : ∃ w₂, Attached w₂ ∧ w₂.ni.mappingBlocksTopBa = w₁.ni.mappingBlocksTopBa ∧
        StateProgram.when (nmbmGetBlockState w₁.ni pb ≠ blockStNeedRemap)
          (assignBlockState pb blockStBad) w₁ = ((), w₂) := by
      rw [when_run]
      split
      · exact ⟨_, (hattached.mapNi (f := (·.setBlockState pb blockStBad)) rfl rfl
          hattached.tables.map_le hattached.tables.top_lt).attached, rfl, rfl⟩
      · exact ⟨w₁, hattached, rfl, rfl⟩
    obtain ⟨w₂, hattached₂, htop₂, hwhen⟩ := hstate
    obtain ⟨-, htop₃, -⟩ :=
      Instance.setup_bounds (nmbmUpdateInfoTable_layout hattached₂.tables).1.setup
    refine .inr ⟨(nmbmUpdateInfoTable w₂).2, hattached₂.update.attached, by omega, fun again => ?_⟩
    rw [hremap, if_pos rfl, hwhen]

theorem eraseLogicBlockLoop_run (rounds : ℕ) (hentry : ¬w.ni.blockMapping.getD lb (-1) < 0)
    (hpb : (w.ni.blockMapping.getD lb (-1)).toNat = pb) :
    eraseLogicBlockLoop lb (rounds + 1) w =
      if nmbmGetBlockState w.ni pb = blockStBad ∨ nmbmGetBlockState w.ni pb = blockStNeedRemap then
        remapLogicBlock lb pb (eraseLogicBlockLoop lb rounds) w
      else if (nmbmErasePhysBlock (ba2addr w.ni pb) w).1 = true then
        (0, (nmbmErasePhysBlock (ba2addr w.ni pb) w).2)
      else remapLogicBlock lb pb (eraseLogicBlockLoop lb rounds)
        (markBad pb (nmbmErasePhysBlock (ba2addr w.ni pb) w).2).2 := by
  rw [eraseLogicBlockLoop, getNi_bind_run]
  simp only [ite_run, if_neg hentry]
  rw [hpb]
  by_cases hremap : nmbmGetBlockState w.ni pb = blockStBad ∨
      nmbmGetBlockState w.ni pb = blockStNeedRemap
  · rw [decide_eq_true hremap, if_pos hremap]
    rfl
  · rw [decide_eq_false hremap, if_neg hremap, bind_run, runIf_run, if_pos rfl]
    generalize nmbmErasePhysBlock (ba2addr w.ni pb) w = r
    rcases r with ⟨_ | _, w₁⟩ <;> rfl

theorem eraseLogicBlockLoop_cases (h : Attached w) (lb : ℕ) :
    (∃ result, Settled lb result ∧ ∀ rounds, eraseLogicBlockLoop lb (rounds + 1) w = result) ∨
      ∃ w₁, Attached w₁ ∧ w₁.ni.mappingBlocksTopBa < w.ni.mappingBlocksTopBa ∧
        ∀ rounds, eraseLogicBlockLoop lb (rounds + 1) w = eraseLogicBlockLoop lb rounds w₁ := by
  have hround : ∀ {w' : World} {pb : ℕ}, Attached w' →
      w'.ni.mappingBlocksTopBa = w.ni.mappingBlocksTopBa →
      (∀ rounds, eraseLogicBlockLoop lb (rounds + 1) w =
        remapLogicBlock lb pb (eraseLogicBlockLoop lb rounds) w') →
      (∃ result, Settled lb result ∧ ∀ rounds, eraseLogicBlockLoop lb (rounds + 1) w = result) ∨
        ∃ w₁, Attached w₁ ∧ w₁.ni.mappingBlocksTopBa < w.ni.mappingBlocksTopBa ∧
          ∀ rounds, eraseLogicBlockLoop lb (rounds + 1) w = eraseLogicBlockLoop lb rounds w₁ := by
    intro w' pb hattached htop hrun
    rcases remapLogicBlock_cases hattached lb pb with
      ⟨result, hsettled, hfail⟩ | ⟨w₁, hattached₁, hlt, hagain⟩
    · exact .inl ⟨result, hsettled, fun rounds => (hrun rounds).trans (hfail _)⟩
    · exact .inr ⟨w₁, hattached₁, hlt.trans_eq htop, fun rounds => (hrun rounds).trans (hagain _)⟩
  by_cases hentry : w.ni.blockMapping.getD lb (-1) < 0
  · refine .inl ⟨(-eio, w), .inr ⟨rfl, hentry⟩, fun rounds => ?_⟩
    rw [eraseLogicBlockLoop, getNi_bind_run]
    simp only [ite_run, if_pos hentry]
    rfl
  generalize hpb : (w.ni.blockMapping.getD lb (-1)).toNat = pb
  have hrun := fun rounds => eraseLogicBlockLoop_run rounds hentry hpb
  by_cases hremap : nmbmGetBlockState w.ni pb = blockStBad ∨
      nmbmGetBlockState w.ni pb = blockStNeedRemap
  · exact hround h rfl fun rounds => (hrun rounds).trans (if_pos hremap)
  replace hrun := fun rounds => (hrun rounds).trans (if_neg hremap)
  have hchip : ChipStep {pb} w (nmbmErasePhysBlock (ba2addr w.ni pb) w).2 :=
    nmbmErasePhysBlock_chipStep pb rfl
  by_cases herased : (nmbmErasePhysBlock (ba2addr w.ni pb) w).1 = true
  · exact .inl ⟨_, .inl rfl, fun rounds => (hrun rounds).trans (if_pos herased)⟩
  · have htop : (nmbmErasePhysBlock (ba2addr w.ni pb) w).2.ni.mappingBlocksTopBa =
        w.ni.mappingBlocksTopBa := by
      have hfield := congrArg Instance.mappingBlocksTopBa hchip.core
      exact hfield
    exact hround ((h.chipStep hchip).attached.markBad pb).attached ((markBad_top pb _).trans htop)
      fun rounds => (hrun rounds).trans (if_neg herased)

/-- Every further round has one spare block less, so more rounds than the top of
the spare blocks change nothing. -/
theorem eraseLogicBlockLoop_ends (rounds : ℕ) (h : Attached w) (lb : ℕ)
    (hrounds : w.ni.mappingBlocksTopBa < rounds) {n : ℕ} (hn : rounds ≤ n) :
    eraseLogicBlockLoop lb n w = eraseLogicBlockLoop lb rounds w ∧
      Settled lb (eraseLogicBlockLoop lb rounds w) := by
  induction rounds generalizing n w with
  | zero => omega
  | succ rounds ih =>
      obtain ⟨m, rfl⟩ : ∃ m, n = m + 1 := ⟨n - 1, by omega⟩
      rcases eraseLogicBlockLoop_cases h lb with ⟨result, hsettled, hrun⟩ | ⟨w₁, h₁, hlt, hrun⟩
      · rw [hrun, hrun]
        exact ⟨rfl, hsettled⟩
      · rw [hrun, hrun]
        exact ih h₁ (by omega) (by omega)

end Erase

/-! ## The loops end -/

section Ends

variable {nld : LowerDevice} {flash : Flash} {pattern : ℕ → Response} {w₀ w : World}
  {ops : List Op}

/-- Likewise, more rounds than `nmbm_erase_logic_block` is given here change nothing:
the erasure succeeds, or it fails and the logic block is no longer mapped. -/
theorem erase_retries_end (hattach : FreshAttach nld flash pattern w₀)
    (hrun : runOps ops w₀ = ((), w)) (lb : ℕ) :
    (∀ rounds ≥ w.ni.mappingBlocksTopBa + 2,
        eraseLogicBlockLoop lb rounds w = nmbmEraseLogicBlock lb w) ∧
      ((nmbmEraseLogicBlock lb w).1 = 0 ∨ (nmbmEraseLogicBlock lb w).1 = -eio ∧
        (nmbmEraseLogicBlock lb w).2.ni.blockMapping.getD lb (-1) < 0) := by
  have hends := fun n => eraseLogicBlockLoop_ends (n := n) (w.ni.mappingBlocksTopBa + 2)
    (hattach.continues hrun).attached lb (by omega)
  exact ⟨fun n hn => (hends n hn).1, (hends _ le_rfl).2⟩

theorem erase_retries_end_small :
    eraseLogicBlockLoop 1 100 markedRun = nmbmEraseLogicBlock 1 markedRun := by
  have htop : markedRun.ni.mappingBlocksTopBa = 13 := by decide +kernel
  refine (erase_retries_end (smallAttach_fresh smallAttach_ret) markedRun_run 1).1 100 ?_
  rw [htop]
  decide

end Ends

/-! ## A read-only device -/

/-- The blocks that a request may change on a read-only device. -/
def Op.marks (ni : Instance) : Op → Set ℕ
  | .markBad addr => {pb | ni.Maps (addr2ba ni addr.toNat) pb}
  | _ => ∅

/-- The device stays read-only, and only blocks in `S` have been changed. -/
structure Rests (S : Set ℕ) (w w' : World) : Prop where
  protectedMode : w'.ni.protectedMode = true
  lower : w'.ni.lower = w.ni.lower
  maps : ∀ lb pb, w'.ni.Maps lb pb → w.ni.Maps lb pb
  effects : w.ni.lower.Sound → Effects S w w'

section Rests

variable {S : Set ℕ} {w w' : World}

theorem Rests.refl (h : w.ni.protectedMode = true) : Rests S w w :=
  ⟨h, rfl, fun _ _ => id, fun _ => Effects.of_eq rfl rfl⟩

theorem Rests.trans {w₁ w₂ w₃ : World} (h : Rests S w₁ w₂) (h' : Rests S w₂ w₃) : Rests S w₁ w₃ :=
  ⟨h'.protectedMode, h'.lower.trans h.lower, fun lb pb hmaps => h.maps lb pb (h'.maps lb pb hmaps),
    fun hsound => (h.effects hsound).trans (h'.effects (h.lower ▸ hsound))⟩

theorem Rests.update (h : w.ni.protectedMode = true) : Rests S w (nmbmUpdateInfoTable w).2 := by
  rw [nmbmUpdateInfoTable_run, if_neg (by simp [h])]
  exact ⟨h, rfl, fun _ _ => id, fun _ => Effects.of_eq rfl rfl⟩

theorem nmbmMarkBadBlock_rests (h : w.ni.protectedMode = true) (addr : UInt64) :
    Rests {pb | w.ni.Maps (addr2ba w.ni addr.toNat) pb} w (nmbmMarkBadBlock addr w).2 := by
  unfold nmbmMarkBadBlock
  rw [getNi_bind_run]
  simp only [ite_run]
  split
  · exact Rests.refl h
  split
  · exact Rests.refl h
  rename_i hentry
  have hmaps := Instance.maps_of_getD hentry
  generalize (w.ni.blockMapping.getD (addr2ba w.ni addr.toNat) (-1)).toNat = pb at hmaps ⊢
  generalize addr2ba w.ni addr.toNat = lb at hmaps ⊢
  have hmark : ChipStep {pb} (w.mapNi (·.unmap lb))
      (nmbmMarkPhysBadBlock pb (w.mapNi (·.unmap lb))).2 :=
    Keeps.chipStep (nmbmMarkPhysBadBlock_step (Set.mem_singleton pb))
  have hmarked : Rests {pb | w.ni.Maps lb pb} w (markBad pb (w.mapNi (·.unmap lb))).2 :=
    ⟨(congrArg Instance.protectedMode hmark.core).trans h, hmark.lower,
      fun lb' pb' h' => maps_unmap ((hmark.maps_iff lb' pb').mp h'),
      fun hsound => (hmark.effects hsound).mono (Set.singleton_subset_iff.mpr hmaps)⟩
  have hrecord : Rests {pb | w.ni.Maps lb pb} w
      (record .unmapBlock (markBad pb (w.mapNi (·.unmap lb))).2).2 :=
    ⟨hmarked.protectedMode, hmarked.lower, hmarked.maps, hmarked.effects⟩
  exact hrecord.trans (Rests.update hrecord.protectedMode)

theorem Op.exec_rests (h : w.ni.protectedMode = true) (op : Op) :
    Rests (op.marks w.ni) w (op.exec w).2 := by
  cases op with
  | markBad addr => exact nmbmMarkBadBlock_rests h addr
  | detach => exact Rests.update h
  | checkBad addr => exact Rests.refl h
  | erase addr size | readPage addr | readRange addr size | writePage addr data oob mode
  | writeRange addr data mode =>
      simp only [Op.exec, bind_run, pure_run]
      simp only [nmbmEraseBlockRange, nmbmReadSinglePage, nmbmReadRange, nmbmWriteSinglePage,
        nmbmWriteRange, getNi_bind_run, if_pos h]
      exact Rests.refl h

theorem addr2ba_congr {ni ni' : Instance} (h : ni'.lower = ni.lower) (addr : ℕ) :
    addr2ba ni' addr = addr2ba ni addr := by
  unfold addr2ba Instance.erasesizeShift Instance.erasesize
  rw [h]

theorem Op.marks_mono (h : Rests S w w') (op : Op) : op.marks w'.ni ⊆ op.marks w.ni := by
  cases op with
  | markBad addr =>
      intro pb hpb
      have hmaps : w'.ni.Maps (addr2ba w'.ni addr.toNat) pb := hpb
      exact h.maps _ pb (addr2ba_congr h.lower addr.toNat ▸ hmaps)
  | _ => exact Set.Subset.rfl

theorem Rests.mono {T : Set ℕ} (h : Rests S w w') (hST : S ⊆ T) : Rests T w w' :=
  ⟨h.protectedMode, h.lower, h.maps, fun hsound => (h.effects hsound).mono hST⟩

theorem runOps_rests (h : w.ni.protectedMode = true) (ops : List Op) :
    Rests {pb | ∃ op ∈ ops, pb ∈ op.marks w.ni} w (runOps ops w).2 := by
  induction ops generalizing w with
  | nil => exact Rests.refl h
  | cons op ops ih =>
      have hfirst := op.exec_rests h
      have hrest := ih hfirst.protectedMode
      refine (hfirst.mono fun pb hpb => ?_).trans (hrest.mono fun pb hpb => ?_)
      · exact ⟨op, List.mem_cons_self, hpb⟩
      · obtain ⟨op', hop', hpb⟩ := hpb
        exact ⟨op', List.mem_cons_of_mem op hop', op'.marks_mono hfirst hpb⟩

/-- Once the device is read-only it stays so, and whatever is requested, every erase,
program or mark operation on the chip is made for a request to mark a block bad, on
the physical block that the logic block was mapped to. -/
theorem read_only_run (hsound : w.ni.lower.Sound) (hprotected : w.ni.protectedMode = true)
    {ops : List Op} (hrun : runOps ops w = ((), w')) :
    w'.ni.protectedMode = true ∧ ∃ issued, w'.ops = w.ops ++ issued ∧
      w'.flash = replay issued w.flash ∧ ∀ op ∈ issued, ∃ addr, Op.markBad addr ∈ ops ∧
        w.ni.Maps (addr2ba w.ni addr.toNat) op.block := by
  have hrests := runOps_rests hprotected ops
  rw [hrun] at hrests
  obtain ⟨issued, hops, hflash, hblocks⟩ := hrests.effects hsound
  refine ⟨hrests.protectedMode, issued, hops, hflash, fun lower hlower => ?_⟩
  obtain ⟨op, hop, hmarks⟩ := hblocks lower hlower
  cases op with
  | markBad addr => exact ⟨addr, hop, hmarks⟩
  | _ => exact absurd hmarks id

theorem read_only_run_small :
    (runOps [.markBad 512, .erase 256 256, .detach]
      (markedRun.mapNi Instance.setProtected)).2.ni.protectedMode = true :=
  (read_only_run ⟨by decide +kernel, by decide +kernel⟩ rfl (Prod.ext rfl rfl)).1

end Rests

end Nwa50ax.Nmbm
