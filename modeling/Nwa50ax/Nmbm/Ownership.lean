import Nwa50ax.Nmbm.Create
import Nwa50ax.Nmbm.TableFormat

/-!
# Ownership of physical blocks

A logic block owns the physical block it is mapped to: no other logic block is
mapped to it, and it is neither the signature nor a block that a table may be
written to or that may be handed out again.  `nmbm_map_block` moves the top of
the spare blocks down by one, whichever block it has handed out, so ownership
depends on the top being the block that is handed out.
-/

namespace Nwa50ax.Nmbm

open StateProgram

structure Owned (ni : Instance) : Prop where
  unique : ∀ lb lb' pb, ni.Maps lb pb → ni.Maps lb' pb → lb = lb'
  outside : ∀ lb pb, ni.Maps lb pb → pb < ni.mgmtStartBa ∨ ni.mappingBlocksTopBa < pb
  not_signature : ∀ lb pb, ni.Maps lb pb → pb ≠ ni.signatureBa

/-- When a spare block is asked for and one is left, the one at the top is good. -/
def Call.TopGood : Call → Prop
  | .mapBlock n => ∀ ba ≤ n.mappingBlocksTopBa, n.mappingBlocksBa < ba → n.Good ba →
      n.Good n.mappingBlocksTopBa
  | _ => True

instance : (c : Call) → Decidable c.TopGood
  | .mapBlock n => inferInstanceAs (Decidable (∀ ba ≤ n.mappingBlocksTopBa,
      n.mappingBlocksBa < ba → n.Good ba → n.Good n.mappingBlocksTopBa))
  | .markTablesClean _ | .unmapBlock _ | .loadInfoTable _ _ | .mgmtBlock _ _ | .writeMainTable _
  | .updateInfoTable _ _ _ _ => instDecidableTrue

section Owned

variable {ni ni' : Instance}

theorem Owned.congr (h : Owned ni) (hmapping : ni'.blockMapping = ni.blockMapping)
    (hmgmt : ni'.mgmtStartBa = ni.mgmtStartBa)
    (htop : ni'.mappingBlocksTopBa ≤ ni.mappingBlocksTopBa)
    (hsig : ni'.signatureBa = ni.signatureBa) : Owned ni' := by
  have hmaps : ∀ lb pb, ni'.Maps lb pb → ni.Maps lb pb := by
    intro lb pb
    unfold Instance.Maps
    rw [hmapping]
    exact id
  refine ⟨fun lb lb' pb h₁ h₂ => h.unique lb lb' pb (hmaps _ _ h₁) (hmaps _ _ h₂),
    fun lb pb h₁ => ?_, fun lb pb h₁ => hsig ▸ h.not_signature lb pb (hmaps _ _ h₁)⟩
  have hout := h.outside lb pb (hmaps _ _ h₁)
  omega

theorem Owned.of_setup (h : Owned ni) (hsetup : ni'.setup = ni.setup) : Owned ni' := by
  obtain ⟨hmgmt, htop, hsig⟩ := Instance.setup_bounds hsetup
  have hmapping : ni'.blockMapping = ni.blockMapping := by
    have hfield := congrArg Instance.blockMapping hsetup
    exact hfield
  exact h.congr hmapping hmgmt htop.le hsig

theorem maps_unmap {lb lb' pb : ℕ} (h : (ni.unmap lb).Maps lb' pb) : ni.Maps lb' pb := by
  unfold Instance.Maps Instance.unmap at h
  rw [List.getElem?_set] at h
  split at h
  · split at h
    · have hneg : (-1 : ℤ) = pb := Option.some.inj h
      omega
    · cases h
  · exact h

theorem Owned.unmap (h : Owned ni) (lb : ℕ) : Owned (ni.unmap lb) :=
  ⟨fun _ _ _ h₁ h₂ => h.unique _ _ _ (maps_unmap h₁) (maps_unmap h₂),
    fun _ _ h₁ => h.outside _ _ (maps_unmap h₁),
    fun _ _ h₁ => h.not_signature _ _ (maps_unmap h₁)⟩

theorem maps_mapTo {lb pb lb' pb' : ℕ} (h : (ni.mapTo lb pb).Maps lb' pb') :
    (lb' = lb ∧ pb' = pb) ∨ (lb' ≠ lb ∧ ni.Maps lb' pb') := by
  unfold Instance.Maps Instance.mapTo at h
  rw [List.getElem?_set] at h
  split at h
  · rename_i hlb
    split at h
    · have hpb : (pb : ℤ) = pb' := Option.some.inj h
      exact .inl ⟨hlb.symm, by omega⟩
    · cases h
  · rename_i hlb
    exact .inr ⟨fun heq => hlb heq.symm, h⟩

theorem Owned.mapTop (h : Owned ni) (hmgmt : ni.mgmtStartBa ≤ ni.mappingBlocksTopBa)
    (hpos : 0 < ni.mappingBlocksTopBa) (hsig : ni.mappingBlocksTopBa < ni.signatureBa)
    (hlt : ni.mappingBlocksTopBa < 2 ^ 32) (lb : ℕ) :
    Owned (ni.mapTo lb ni.mappingBlocksTopBa) := by
  have hsub : (ni.mapTo lb ni.mappingBlocksTopBa).mappingBlocksTopBa =
      ni.mappingBlocksTopBa - 1 := subU32_one hpos hlt
  have hfree : ∀ lb', ¬ni.Maps lb' ni.mappingBlocksTopBa := by
    intro lb' hmaps
    have hout := h.outside lb' _ hmaps
    omega
  constructor
  · intro lb₁ lb₂ pb h₁ h₂
    rcases maps_mapTo h₁ with ⟨rfl, rfl⟩ | ⟨_, hold₁⟩
    · rcases maps_mapTo h₂ with ⟨hlb₂, -⟩ | ⟨_, hold₂⟩
      · exact hlb₂.symm
      · exact absurd hold₂ (hfree lb₂)
    · rcases maps_mapTo h₂ with ⟨_, rfl⟩ | ⟨_, hold₂⟩
      · exact absurd hold₁ (hfree lb₁)
      · exact h.unique lb₁ lb₂ pb hold₁ hold₂
  · intro lb' pb h₁
    rw [hsub]
    rcases maps_mapTo h₁ with ⟨_, rfl⟩ | ⟨_, hold⟩
    · right
      omega
    · have hout := h.outside lb' pb hold
      have hmgmt' : (ni.mapTo lb ni.mappingBlocksTopBa).mgmtStartBa = ni.mgmtStartBa := rfl
      omega
  · intro lb' pb h₁
    rcases maps_mapTo h₁ with ⟨_, rfl⟩ | ⟨_, hold⟩
    · exact hsig.ne
    · exact h.not_signature lb' pb hold

end Owned

/-! ## Steps -/

theorem Owned.update {w : World} (hattached : Attached w) (h : Owned w.ni) :
    Owned (nmbmUpdateInfoTable w).2.ni :=
  h.of_setup (nmbmUpdateInfoTable_layout hattached.tables).1.setup

theorem Owned.map {lb : ℕ} {w : World} (hattached : Attached w)
    (hcalls : ∀ c ∈ (nmbmMapBlock lb w).2.calls, c.TopGood) (h : Owned w.ni) :
    Owned (nmbmMapBlock lb w).2.ni := by
  have hbounds := hattached.tables
  have hrecord := hattached.record .mapBlock trivial
  rcases nmbmMapBlock_cases hattached.bounded lb with
    ⟨-, hrun⟩ | ⟨-, hrun⟩ | ⟨pb, hlo, hhi, hgood, hfirst, hrun⟩
  · rw [hrun]
    exact h
  · rw [hrun]
    have hupdated : Owned (nmbmUpdateInfoTable (record .mapBlock w).2).2.ni :=
      Owned.update hrecord.attached h
    have hlayout := (hrecord.attached.update).attached.tables
    exact hupdated.congr rfl rfl hlayout.map_le rfl
  · rw [hrun] at hcalls ⊢
    have htop : w.ni.Good w.ni.mappingBlocksTopBa :=
      hcalls _ (record_mem_calls .mapBlock w) pb hhi hlo hgood
    have hmgmt := hbounds.mgmt_le
    have hmap := hbounds.map_le
    have hpos : 0 < w.ni.mappingBlocksTopBa := by omega
    have hlt := hbounds.top_lt.trans (hattached.sig_lt.trans hattached.count_lt)
    rw [hfirst htop]
    exact h.mapTop (hmgmt.trans hmap) hpos hbounds.top_lt hlt lb

theorem Owned.opStep {lb : ℕ} {w w' : World} (hstep : OpStep lb w w') (hattached : Attached w)
    (hcalls : ∀ c ∈ w'.calls, c.TopGood) (h : Owned w.ni) : Owned w'.ni := by
  cases hstep with
  | chip S hchip hS =>
      have hframe := Instance.frame_of_core hchip.core
      exact h.of_setup (Instance.setup_of_frame hframe)
  | setState ba state => exact h.congr rfl rfl le_rfl rfl
  | abandon f hf =>
      have hunmapped := h.unmap lb
      rcases hf with rfl | ⟨pb, rfl⟩
      · exact hunmapped
      · exact hunmapped.congr rfl rfl le_rfl rfl
  | discard pb hpb =>
      have hmark : ChipStep {pb} (w.mapNi (·.unmap lb))
          (nmbmMarkPhysBadBlock pb (w.mapNi (·.unmap lb))).2 :=
        Keeps.chipStep (nmbmMarkPhysBadBlock_step (Set.mem_singleton pb))
      have hunmapped : Owned (nmbmMarkPhysBadBlock pb (w.mapNi (·.unmap lb))).2.ni :=
        Owned.of_setup (h.unmap lb)
          (Instance.setup_of_frame (Instance.frame_of_core hmark.core))
      exact hunmapped.congr rfl rfl le_rfl rfl
  | map hlb => exact Owned.map hattached hcalls h
  | update => exact Owned.update hattached h

/-! ## Creation -/

theorem Built.maps {ni : Instance} {usable : List ℕ}
    (hmapping : ni.blockMapping = usable.map (fun pb : ℕ => (pb : ℤ)) ++
      List.replicate (ni.blockCount - usable.length) (-1))
    {lb pb : ℕ} (h : ni.Maps lb pb) : usable[lb]? = some pb := by
  unfold Instance.Maps at h
  rw [hmapping] at h
  by_cases hlb : lb < usable.length
  · rw [List.getElem?_append_left (by simpa using hlb), List.getElem?_map,
      List.getElem?_eq_getElem hlb] at h
    have hpb : ((usable[lb] : ℕ) : ℤ) = pb := Option.some.inj h
    rw [List.getElem?_eq_getElem hlb, Nat.cast_injective hpb]
  · have hmem : (pb : ℤ) ∈ List.replicate (ni.blockCount - usable.length) (-1 : ℤ) := by
      rw [List.getElem?_append_right (by simpa using hlb)] at h
      exact List.mem_of_getElem? h
    have hneg : (pb : ℤ) = -1 := List.eq_of_mem_replicate hmem
    omega

theorem Built.owned {ni : Instance} (h : Built ni) (hsig : ni.mgmtStartBa < ni.signatureBa) :
    Owned ni := by
  obtain ⟨usable, hsorted, hbelow, -, hmapping⟩ := h
  have hnodup : usable.Nodup := hsorted.imp fun hlt => hlt.ne
  have hlt : ∀ lb pb, ni.Maps lb pb → pb < ni.mgmtStartBa := fun lb pb hmaps =>
    hbelow pb (List.mem_of_getElem? (Built.maps hmapping hmaps))
  refine ⟨fun lb lb' pb h₁ h₂ => ?_, fun lb pb hmaps => .inl (hlt lb pb hmaps),
    fun lb pb hmaps => ((hlt lb pb hmaps).trans hsig).ne⟩
  have hget₁ := Built.maps hmapping h₁
  have hget₂ := Built.maps hmapping h₂
  obtain ⟨hlb, -⟩ := List.getElem?_eq_some_iff.mp hget₁
  exact (List.getElem?_inj hlb hnodup).mp (hget₁.trans hget₂.symm)

theorem FreshAttach.owned {nld : LowerDevice} {flash : Flash} {pattern : ℕ → Response}
    {w : World} (h : FreshAttach nld flash pattern w) (hcalls : ∀ c ∈ w.calls, c.TopGood) :
    Owned w.ni := by
  obtain ⟨w₀, w₁, hblank⟩ := h.attachedBlank
  have hformatted := hblank.formatted
  refine (nmbmCreateInfoTable_invariant (P := fun w => Owned w.ni)
    (fun _ _ => Owned.map) (fun _ hown => hown.congr rfl rfl le_rfl rfl)
    (fun _ hattached _ => Owned.update hattached)
    hformatted.prepared hblank.created hcalls ?_).2
  intro top w₂ hmgmt hsig _ hrebuild _
  have hstep := (nmbmRebuildInfoTable_rewrites (w := w₁.atTop top)
    (generateCache_cacheSat (w₁.mapNi (·.setTop top)).ni) hmgmt.le hsig).step
  rw [hrebuild] at hstep
  have hbuilt : Built (w₁.atTop top).ni := hformatted.built
  exact (hbuilt.owned hformatted.mgmt_lt).of_setup (Instance.setup_of_round hstep.round)

/-- In every run in which the top of the spare blocks is good whenever a spare
block is handed out, no two logic blocks are mapped to the same physical block,
and none is mapped to the signature or to a block from `mgmt_start_ba` up to
`mapping_blocks_top_ba`. -/
theorem mapped_blocks_owned {nld : LowerDevice} {flash : Flash} {pattern : ℕ → Response}
    {w₀ w : World} {ops : List Op} (hattach : FreshAttach nld flash pattern w₀)
    (hrun : runOps ops w₀ = ((), w)) (hcalls : ∀ c ∈ w.calls, c.TopGood) :
    (∀ lb lb' pb, w.ni.Maps lb pb → w.ni.Maps lb' pb → lb = lb') ∧
      (∀ lb, ¬w.ni.Maps lb w.ni.signatureBa) ∧
      ∀ lb pb, w.ni.Maps lb pb → ¬(w.ni.mgmtStartBa ≤ pb ∧ pb ≤ w.ni.mappingBlocksTopBa) := by
  have hsteps : AnyOpSteps w₀ w := by
    have hkeeps := runOps_opSteps ops w₀
    rw [hrun] at hkeeps
    exact hkeeps
  have hattached := hattach.attached
  have hinit := hattach.owned fun c hc => hcalls c ((hsteps.continues hattached).mem_calls hc)
  have howned : Owned w.ni := hsteps.invariant (P := fun w => Owned w.ni)
    (fun _ _ _ => Owned.opStep) hattached hcalls hinit
  refine ⟨howned.unique, fun lb hmaps => howned.not_signature lb _ hmaps rfl,
    fun lb pb hmaps hpool => ?_⟩
  have hout := howned.outside lb pb hmaps
  omega

/-! ## A chip with a bad block among the spare blocks -/

theorem blankFlash_blank (bad : List ℕ) (ratio : UInt32) :
    (blankFlash bad).Blank (smallDevice ratio).writesize.toNat := fun _ _ => rfl

def smallAttach (ratio : UInt32) (bad : List ℕ) : ℤ × World :=
  nmbmAttach (smallDevice ratio)
    (World.powerOn (smallDevice ratio) (blankFlash bad) fun _ => Response.ok)

theorem smallAttach_fresh {ratio : UInt32} {bad : List ℕ} (h : (smallAttach ratio bad).1 = 0) :
    FreshAttach (smallDevice ratio) (blankFlash bad) (fun _ => Response.ok)
      (smallAttach ratio bad).2 := by
  have hblocks : 16 ≤ blockCountOf (smallDevice 0) := by decide +kernel
  exact ⟨hblocks, blankFlash_blank bad ratio, Prod.ext h rfl⟩

/-- With one bad data block the run meets the condition: the last logic block is
mapped to the top of the spare blocks, which is good. -/
theorem mapped_blocks_owned_small :
    (smallAttach 8 [0]).2.ni.Maps 7 14 ∧
      ∀ lb pb, (smallAttach 8 [0]).2.ni.Maps lb pb → (smallAttach 8 [0]).2.ni.Maps 7 pb →
        lb = 7 := by
  have hrun : (fun r : ℤ × World => (r.1, r.2.ni.blockMapping[7]?,
      decide (∀ c ∈ r.2.calls, c.TopGood))) (smallAttach 8 [0]) = (0, some 14, true) := by
    decide +kernel
  simp only [Prod.mk.injEq, decide_eq_true_eq] at hrun
  obtain ⟨hret, hmaps, hcalls⟩ := hrun
  have howned := mapped_blocks_owned (smallAttach_fresh hret) (rfl : runOps [] _ = _) hcalls
  exact ⟨hmaps, fun lb pb h₁ h₂ => howned.1 lb 7 pb h₁ h₂⟩

/-- Block 13 is bad.  After block 14 has been handed out the top is 13, the walk
finds block 12, and the top moves to 12, so block 12 is handed out again. -/
theorem spare_block_handed_out_twice :
    ∃ w, FreshAttach (smallDevice 12) (blankFlash [0, 1, 2, 13]) (fun _ => Response.ok) w ∧
      w.ni.Maps 2 12 ∧ w.ni.Maps 3 12 ∧ 3 < w.ni.dataBlockCount := by
  have hrun : (fun r : ℤ × World => (r.1, r.2.ni.blockMapping[2]?, r.2.ni.blockMapping[3]?,
      r.2.ni.dataBlockCount)) (smallAttach 12 [0, 1, 2, 13]) = (0, some 12, some 12, 4) := by
    decide +kernel
  simp only [Prod.mk.injEq] at hrun
  obtain ⟨hret, hmaps₂, hmaps₃, hcount⟩ := hrun
  exact ⟨_, smallAttach_fresh hret, hmaps₂, hmaps₃, hcount ▸ Nat.lt_succ_self 3⟩

end Nwa50ax.Nmbm
