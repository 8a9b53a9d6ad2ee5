import Nwa50ax.Nmbm.Ops

/-!
# Invariants along runs of operations

An attached instance keeps the layout of its management area through every
operation, whatever the chip does.  Further invariants are proved step by step,
for runs in which every recorded call meets a condition.
-/

namespace Nwa50ax.Nmbm

open ByteBuffer StateProgram

/-- The instance has been attached: its management area is laid out properly
below the signature. -/
structure Attached (w : World) : Prop where
  tables : Tables (fun _ => True) (fun _ => True) w
  sig_lt : w.ni.signatureBa < w.ni.blockCount
  count_lt : w.ni.blockCount < 2 ^ 32

theorem Attached.bounded {w : World} (h : Attached w) : Bounded w.ni :=
  ⟨h.tables.map_le, h.tables.top_lt, h.sig_lt, h.count_lt⟩

/-- A management block that is erased or written lies below the spare blocks
that have been handed out, and below the signature. -/
def Call.Confined : Call → Prop
  | .mgmtBlock n ba =>
      n.mgmtStartBa ≤ ba ∧ ba < n.mappingBlocksTopBa ∧ n.mappingBlocksTopBa < n.signatureBa
  | _ => True

/-- The step leads from an attached instance to an attached instance, and adds
confined calls to the history. -/
structure Continues (w w' : World) : Prop where
  attached : Attached w'
  calls : ∃ calls, w'.calls = w.calls ++ calls ∧ ∀ c ∈ calls, c.Confined

section Continues

variable {w w' : World}

theorem Continues.trans {w₁ w₂ w₃ : World} (h : Continues w₁ w₂) (h' : Continues w₂ w₃) :
    Continues w₁ w₃ := by
  obtain ⟨calls, hcalls, hconfined⟩ := h.calls
  obtain ⟨calls', hcalls', hconfined'⟩ := h'.calls
  refine ⟨h'.attached, calls ++ calls', by rw [hcalls', hcalls, List.append_assoc], ?_⟩
  intro c hc
  rcases List.mem_append.mp hc with hold | hnew
  · exact hconfined c hold
  · exact hconfined' c hnew

theorem Continues.mem_calls (h : Continues w w') {c : Call} (hc : c ∈ w.calls) :
    c ∈ w'.calls := by
  obtain ⟨calls, hcalls, -⟩ := h.calls
  rw [hcalls]
  exact List.mem_append_left _ hc

theorem Tables.layout_of_frame (h : Tables (fun _ => True) (fun _ => True) w)
    (hframe : w'.ni.frame = w.ni.frame) (hblocks : w'.tableBlocks = w.tableBlocks) :
    Tables (fun _ => True) (fun _ => True) w' := by
  have hkeep : ∀ {start lo hi : ℕ}, TableAt (fun _ => True) w start lo hi →
      TableAt (fun _ => True) w' start lo hi := fun htable =>
    ⟨hblocks ▸ htable.start_mem, hblocks ▸ htable.start_le, hblocks ▸ htable.lt_hi,
      htable.lo_le, fun _ => trivial⟩
  exact h.of_frame hframe (fun hne => hkeep (h.main hne)) (fun hne => hkeep (h.backup hne))

theorem Attached.of_frame (h : Attached w) (hframe : w'.ni.frame = w.ni.frame)
    (hblocks : w'.tableBlocks = w.tableBlocks) : Attached w' := by
  have hcount : w'.ni.blockCount = w.ni.blockCount := by
    have hfield := congrArg Instance.blockCount hframe
    exact hfield
  obtain ⟨-, -, -, -, -, hsig⟩ := Instance.frame_pointers hframe
  exact ⟨h.tables.layout_of_frame hframe hblocks, hsig ▸ hcount ▸ h.sig_lt, hcount ▸ h.count_lt⟩

theorem Attached.chipStep {S : Set ℕ} (h : Attached w) (hstep : ChipStep S w w') :
    Continues w w' :=
  ⟨h.of_frame (Instance.frame_of_core hstep.core) hstep.tableBlocks,
    [], by rw [hstep.calls, List.append_nil], by simp⟩

theorem Attached.mapNi (h : Attached w) {f : Instance → Instance}
    (hanchors : (f w.ni).anchors = w.ni.anchors)
    (hcount : (f w.ni).blockCount = w.ni.blockCount)
    (hmap : w.ni.mappingBlocksBa ≤ (f w.ni).mappingBlocksTopBa)
    (htop : (f w.ni).mappingBlocksTopBa < w.ni.signatureBa) : Continues w (w.mapNi f) := by
  have hsig : (f w.ni).signatureBa = w.ni.signatureBa := by
    have hfields := hanchors
    simp only [Instance.anchors, Prod.mk.injEq] at hfields
    tauto
  exact ⟨⟨h.tables.mapNi hanchors hmap htop, hsig.trans_lt (h.sig_lt.trans_le hcount.ge),
    hcount.trans_lt h.count_lt⟩, [], (List.append_nil _).symm, by simp⟩

theorem Attached.record (h : Attached w) (call : Instance → Call)
    (hconfined : (call w.ni).Confined) : Continues w (record call w).2 := by
  refine ⟨h.of_frame rfl rfl, [call w.ni], rfl, fun c hc => ?_⟩
  rw [List.mem_singleton] at hc
  exact hc ▸ hconfined

theorem Attached.update (h : Attached w) : Continues w (nmbmUpdateInfoTable w).2 := by
  obtain ⟨hstep, hlayout⟩ := nmbmUpdateInfoTable_layout h.tables
  obtain ⟨-, -, hsig⟩ := Instance.setup_bounds hstep.setup
  have hcount : (nmbmUpdateInfoTable w).2.ni.blockCount = w.ni.blockCount := by
    have hfield := congrArg Instance.blockCount hstep.setup
    exact hfield
  obtain ⟨calls, hcalls, hupdate⟩ := hstep.calls
  refine ⟨⟨hlayout, hsig.trans_lt (h.sig_lt.trans_le hcount.ge), hcount.trans_lt h.count_lt⟩,
    calls, hcalls, fun c hc => ?_⟩
  cases c with
  | mgmtBlock n ba =>
      obtain ⟨hsetup, hlo, hhi⟩ := hupdate _ hc
      obtain ⟨hmgmt', htop', hsig'⟩ := Instance.setup_bounds hsetup
      have htop := h.tables.top_lt
      exact ⟨hmgmt'.le.trans hlo, hhi.trans_le htop'.ge, htop'.trans_lt (htop.trans_le hsig'.ge)⟩
  | _ => trivial

theorem Attached.markBad (h : Attached w) (pb : ℕ) : Continues w (markBad pb w).2 := by
  have hchip := h.chipStep (S := {pb})
    (Keeps.chipStep (nmbmMarkPhysBadBlock_step (Set.mem_singleton pb)))
  have htables := hchip.attached.tables
  exact hchip.trans (hchip.attached.mapNi (f := (·.setBlockState pb blockStBad)) rfl rfl
    htables.map_le htables.top_lt)

theorem Attached.map (h : Attached w) (lb : ℕ) : Continues w (nmbmMapBlock lb w).2 := by
  have hrecord := h.record .mapBlock trivial
  rcases nmbmMapBlock_cases h.bounded lb with ⟨-, hrun⟩ | ⟨-, hrun⟩ |
    ⟨pb, hlo, hhi, -, -, hrun⟩
  · rw [hrun]
    exact hrecord
  · rw [hrun]
    have hupdate := hrecord.attached.update
    have htables := hupdate.attached.tables
    exact (hrecord.trans hupdate).trans
      (hupdate.attached.mapNi rfl rfl le_rfl (htables.map_le.trans_lt htables.top_lt))
  · rw [hrun]
    have hsub : subU32 w.ni.mappingBlocksTopBa 1 = w.ni.mappingBlocksTopBa - 1 :=
      subU32_one (by omega) (h.tables.top_lt.trans (h.sig_lt.trans h.count_lt))
    have htop := h.tables.top_lt
    refine hrecord.trans (hrecord.attached.mapNi (f := (·.mapTo lb pb)) rfl rfl ?_ ?_)
    · change w.ni.mappingBlocksBa ≤ subU32 w.ni.mappingBlocksTopBa 1
      omega
    · change subU32 w.ni.mappingBlocksTopBa 1 < w.ni.signatureBa
      omega

end Continues

theorem record_mem_calls (call : Instance → Call) (w : World) :
    call w.ni ∈ (record call w).2.calls := List.mem_append_right _ List.mem_cons_self

theorem OpStep.continues {lb : ℕ} {w w' : World} (hstep : OpStep lb w w') (h : Attached w) :
    Continues w w' := by
  have hbounds := h.tables
  cases hstep with
  | chip S hchip hS => exact h.chipStep hchip
  | setState ba state => exact h.mapNi rfl rfl hbounds.map_le hbounds.top_lt
  | abandon f hf =>
      have hunmap := h.mapNi (f := (·.unmap lb)) rfl rfl hbounds.map_le hbounds.top_lt
      have hstate : Continues (w.mapNi (·.unmap lb)) ((w.mapNi (·.unmap lb)).mapNi f) := by
        rcases hf with rfl | ⟨pb, rfl⟩
        · exact hunmap.attached.mapNi rfl rfl hbounds.map_le hbounds.top_lt
        · exact hunmap.attached.mapNi rfl rfl hbounds.map_le hbounds.top_lt
      exact (hunmap.trans hstate).trans (hstate.attached.record .unmapBlock trivial)
  | discard pb hpb =>
      have hunmap := h.mapNi (f := (·.unmap lb)) rfl rfl hbounds.map_le hbounds.top_lt
      have hmark := hunmap.attached.markBad pb
      exact (hunmap.trans hmark).trans (hmark.attached.record .unmapBlock trivial)
  | map hlb => exact h.map lb
  | update => exact h.update

theorem AnyOpSteps.continues {w w' : World} (hsteps : AnyOpSteps w w') (h : Attached w) :
    Continues w w' := by
  induction hsteps with
  | refl => exact ⟨h, [], (List.append_nil _).symm, by simp⟩
  | tail hsteps hstep ih =>
      obtain ⟨lb, hstep⟩ := hstep
      exact ih.trans (hstep.continues ih.attached)

/-- Induction along a run in which every recorded call meets the condition
`C`: it is enough that each step keeps the invariant. -/
theorem AnyOpSteps.invariant {P : World → Prop} {C : Call → Prop}
    (hP : ∀ lb w w', OpStep lb w w' → Attached w → (∀ c ∈ w'.calls, C c) → P w → P w')
    {w w' : World} (hsteps : AnyOpSteps w w') (h : Attached w)
    (hcalls : ∀ c ∈ w'.calls, C c) (hinit : P w) : P w' := by
  induction hsteps with
  | refl => exact hinit
  | tail hsteps hstep ih =>
      have hmid := (AnyOpSteps.continues hsteps h).attached
      obtain ⟨lb, hstep⟩ := hstep
      have hold := fun c hc => hcalls c ((hstep.continues hmid).mem_calls hc)
      exact hP lb _ _ hstep hmid hcalls (ih hold)

end Nwa50ax.Nmbm
