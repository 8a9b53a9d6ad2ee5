import Nwa50ax.Nmbm.Update
import Nwa50ax.Nmbm.Api
import Mathlib.Logic.Relation

/-!
# What a public operation consists of

Every public operation is a sequence of a few kinds of steps, all but the table
updates concerned with a single logic block.  Properties of whole runs are
proved for these steps.
-/

namespace Nwa50ax.Nmbm

open ByteBuffer StateProgram

def Instance.Maps (ni : Instance) (lb pb : ℕ) : Prop :=
  ni.blockMapping[lb]? = some (pb : ℤ)

theorem Instance.maps_of_getD {ni : Instance} {lb : ℕ}
    (h : ¬ni.blockMapping.getD lb (-1) < 0) :
    ni.Maps lb (ni.blockMapping.getD lb (-1)).toNat := by
  unfold Instance.Maps
  cases hentry : ni.blockMapping[lb]? with
  | none => simp [hentry] at h
  | some entry =>
      have hget : ni.blockMapping.getD lb (-1) = entry := by simp [hentry]
      rw [hget] at h ⊢
      rw [Int.toNat_of_nonneg (not_lt.mp h)]

/-- One step of an operation on the logic block `lb`. -/
inductive OpStep (lb : ℕ) : World → World → Prop
  /-- The physical block of `lb` is read, programmed, erased or marked bad. -/
  | chip {w w' : World} (S : Set ℕ) (hstep : ChipStep S w w')
      (hS : ∀ pb ∈ S, w.ni.Maps lb pb) : OpStep lb w w'
  | setState (w : World) (ba : ℕ) (state : BitVec 32) :
      OpStep lb w (w.mapNi (·.setBlockState ba state))
  | abandon (w : World) (f : Instance → Instance)
      (hf : f = id ∨ ∃ pb, f = (·.setBlockState pb blockStBad)) :
      OpStep lb w (record .unmapBlock ((w.mapNi (·.unmap lb)).mapNi f)).2
  | discard (w : World) (pb : ℕ) (hpb : w.ni.Maps lb pb) :
      OpStep lb w (record .unmapBlock (markBad pb (w.mapNi (·.unmap lb))).2).2
  | map (w : World) (hlb : ∃ pb, w.ni.Maps lb pb) : OpStep lb w (nmbmMapBlock lb w).2
  | update (w : World) : OpStep lb w (nmbmUpdateInfoTable w).2

def OpSteps (lb : ℕ) : World → World → Prop := Relation.ReflTransGen (OpStep lb)

instance (lb : ℕ) : Std.Refl (OpSteps lb) where
  refl _ := Relation.ReflTransGen.refl

instance (lb : ℕ) : IsTrans World (OpSteps lb) where
  trans _ _ _ h h' := Relation.ReflTransGen.trans h h'

def AnyOpSteps : World → World → Prop :=
  Relation.ReflTransGen fun w w' => ∃ lb, OpStep lb w w'

instance : Std.Refl AnyOpSteps where
  refl _ := Relation.ReflTransGen.refl

instance : IsTrans World AnyOpSteps where
  trans _ _ _ h h' := Relation.ReflTransGen.trans h h'

theorem OpSteps.tail {lb : ℕ} {w w₁ w₂ : World} (h : OpSteps lb w w₁)
    (hstep : OpStep lb w₁ w₂) : OpSteps lb w w₂ :=
  Relation.ReflTransGen.tail h hstep

theorem OpSteps.any {lb : ℕ} {w w' : World} (h : OpSteps lb w w') : AnyOpSteps w w' :=
  Relation.ReflTransGen.mono (fun _ _ hstep => ⟨lb, hstep⟩) _ _ h

theorem OpStep.steps {lb : ℕ} {w w' : World} (h : OpStep lb w w') : OpSteps lb w w' :=
  Relation.ReflTransGen.single h

theorem ChipStep.opSteps {S : Set ℕ} {lb : ℕ} {w w' : World} (h : ChipStep S w w')
    (hS : ∀ pb ∈ S, w.ni.Maps lb pb) : OpSteps lb w w' :=
  (OpStep.chip S h hS).steps

theorem ChipStep.maps_iff {S : Set ℕ} {w w' : World} (h : ChipStep S w w') (lb pb : ℕ) :
    w'.ni.Maps lb pb ↔ w.ni.Maps lb pb := by
  have hmapping : w'.ni.blockMapping = w.ni.blockMapping := by
    have hfield := congrArg Instance.blockMapping h.core
    exact hfield
  unfold Instance.Maps
  rw [hmapping]

theorem markBad_maps_iff (ba : ℕ) (w : World) (lb pb : ℕ) :
    (markBad ba w).2.ni.Maps lb pb ↔ w.ni.Maps lb pb :=
  ChipStep.maps_iff (S := {ba})
    (Keeps.chipStep (nmbmMarkPhysBadBlock_step (Set.mem_singleton ba))) lb pb

theorem Maps.singleton {lb pb : ℕ} {w : World} (hpb : w.ni.Maps lb pb) :
    ∀ b ∈ ({pb} : Set ℕ), w.ni.Maps lb b := by
  rintro b rfl
  exact hpb

/-! ## Erasing -/

theorem erase_opSteps {lb pb : ℕ} {w : World} (hpb : w.ni.Maps lb pb) :
    OpSteps lb w (nmbmErasePhysBlock (ba2addr w.ni pb) w).2 :=
  (nmbmErasePhysBlock_chipStep pb rfl).opSteps (Maps.singleton hpb)

theorem markBad_opSteps {lb pb : ℕ} {w : World} (hpb : w.ni.Maps lb pb) :
    OpSteps lb w (markBad pb w).2 := by
  have hchip : ChipStep {pb} w (nmbmMarkPhysBadBlock pb w).2 :=
    Keeps.chipStep (nmbmMarkPhysBadBlock_step (Set.mem_singleton pb))
  exact (hchip.opSteps (Maps.singleton hpb)).trans (OpStep.setState _ pb blockStBad).steps

theorem remap_opSteps {lb : ℕ} (pb rounds : ℕ) {w : World} (hlb : ∃ pb, w.ni.Maps lb pb) :
    ∃ w₁, OpSteps lb w w₁ ∧
      (remapLogicBlock lb pb (eraseLogicBlockLoop lb rounds) w = (-eio, w₁) ∨
        remapLogicBlock lb pb (eraseLogicBlockLoop lb rounds) w =
          eraseLogicBlockLoop lb rounds w₁) := by
  have hmap : OpSteps lb w (nmbmMapBlock lb w).2 := (OpStep.map w hlb).steps
  unfold remapLogicBlock
  rw [bind_run]
  generalize nmbmMapBlock lb w = r at hmap ⊢
  rcases r with ⟨success, w₁⟩
  have hassign : ∀ w' : World, assignBlockState pb blockStBad w' =
      ((), w'.mapNi (·.setBlockState pb blockStBad)) := fun _ => rfl
  cases success with
  | false =>
      have hstate : ∃ f : Instance → Instance,
          (f = id ∨ ∃ pb, f = (·.setBlockState pb blockStBad)) ∧
          (StateProgram.when (nmbmGetBlockState (w₁.mapNi (·.unmap lb)).ni pb ≠ blockStNeedRemap)
            (assignBlockState pb blockStBad) (w₁.mapNi (·.unmap lb))).2 =
              (w₁.mapNi (·.unmap lb)).mapNi f := by
        rw [when_run]
        split
        · exact ⟨_, .inr ⟨pb, rfl⟩, rfl⟩
        · exact ⟨id, .inl rfl, rfl⟩
      obtain ⟨f, hf, hrun⟩ := hstate
      have habandon : OpSteps lb w₁ _ := (OpStep.abandon w₁ f hf).steps
      rw [← hrun] at habandon
      refine ⟨_, (hmap.trans habandon).trans (OpStep.update _).steps, .inl ?_⟩
      rfl
  | true =>
      have hstate : OpSteps lb w₁
          (StateProgram.when (nmbmGetBlockState w₁.ni pb ≠ blockStNeedRemap)
            (assignBlockState pb blockStBad) w₁).2 := by
        rw [when_run]
        split
        · exact (OpStep.setState w₁ pb blockStBad).steps
        · exact Std.Refl.refl w₁
      refine ⟨_, (hmap.trans hstate).trans (OpStep.update _).steps, .inr ?_⟩
      rfl

theorem eraseLogicBlockLoop_round {lb : ℕ} {w : World} (rounds : ℕ)
    (hentry : ¬w.ni.blockMapping.getD lb (-1) < 0) :
    ∃ w₁, OpSteps lb w w₁ ∧
      (eraseLogicBlockLoop lb (rounds + 1) w = (-eio, w₁) ∨
        eraseLogicBlockLoop lb (rounds + 1) w = eraseLogicBlockLoop lb rounds w₁ ∨
        (eraseLogicBlockLoop lb (rounds + 1) w = (0, w₁) ∧
          nmbmErasePhysBlock
            (ba2addr w.ni (w.ni.blockMapping.getD lb (-1)).toNat) w = (true, w₁))) := by
  have hpb := Instance.maps_of_getD hentry
  rw [eraseLogicBlockLoop, getNi_bind_run]
  simp only [ite_run, if_neg hentry]
  generalize (w.ni.blockMapping.getD lb (-1)).toNat = pb at hpb ⊢
  generalize decide (nmbmGetBlockState w.ni pb = blockStBad ∨
    nmbmGetBlockState w.ni pb = blockStNeedRemap) = needRemap
  rw [bind_run, runIf_run]
  cases needRemap with
  | true =>
      obtain ⟨w₁, hsteps, hrun | hrun⟩ := remap_opSteps pb rounds ⟨pb, hpb⟩
      · exact ⟨w₁, hsteps, .inl hrun⟩
      · exact ⟨w₁, hsteps, .inr (.inl hrun)⟩
  | false =>
      have herase := erase_opSteps hpb
      have hmapped : (nmbmErasePhysBlock (ba2addr w.ni pb) w).2.ni.Maps lb pb :=
        ((nmbmErasePhysBlock_chipStep pb rfl).maps_iff lb pb).mpr hpb
      rw [if_pos rfl]
      generalize nmbmErasePhysBlock (ba2addr w.ni pb) w = r at herase hmapped ⊢
      rcases r with ⟨erased, w₁⟩
      cases erased with
      | true => exact ⟨w₁, herase, .inr (.inr ⟨rfl, rfl⟩)⟩
      | false =>
          have hmark := markBad_opSteps hmapped
          have hmapped₂ : ∃ b, (markBad pb w₁).2.ni.Maps lb b :=
            ⟨pb, ((markBad_maps_iff pb w₁ lb pb).mpr hmapped)⟩
          obtain ⟨w₂, hsteps, hrun | hrun⟩ := remap_opSteps pb rounds hmapped₂
          · exact ⟨w₂, (herase.trans hmark).trans hsteps, .inl hrun⟩
          · exact ⟨w₂, (herase.trans hmark).trans hsteps, .inr (.inl hrun)⟩

theorem eraseLogicBlockLoop_opSteps (lb rounds : ℕ) :
    Keeps (OpSteps lb) (eraseLogicBlockLoop lb rounds) := by
  induction rounds with
  | zero => exact Keeps.pure _
  | succ rounds ih =>
      intro w
      by_cases hentry : w.ni.blockMapping.getD lb (-1) < 0
      · rw [eraseLogicBlockLoop, getNi_bind_run]
        simp only [ite_run, if_pos hentry]
        exact Std.Refl.refl w
      · obtain ⟨w₁, hsteps, hrun | hrun | ⟨hrun, -⟩⟩ := eraseLogicBlockLoop_round rounds hentry
        · rw [hrun]
          exact hsteps
        · rw [hrun]
          exact hsteps.trans (ih w₁)
        · rw [hrun]
          exact hsteps

theorem nmbmEraseLogicBlock_opSteps (lb : ℕ) :
    Keeps (OpSteps lb) (nmbmEraseLogicBlock lb) :=
  fun w => eraseLogicBlockLoop_opSteps lb _ w

theorem eraseLogicBlocks_opSteps (ba count : ℕ) :
    Keeps AnyOpSteps (eraseLogicBlocks ba count) := by
  induction count generalizing ba with
  | zero => exact Keeps.pure _
  | succ count ih =>
      intro w
      have hfirst := (nmbmEraseLogicBlock_opSteps ba w).any
      rw [eraseLogicBlocks, getNi_bind_run, bind_run, ite_run]
      split
      · exact hfirst
      · exact hfirst.trans (ih _ _)

theorem nmbmEraseBlockRange_opSteps (addr size : UInt64) :
    Keeps AnyOpSteps (nmbmEraseBlockRange addr size) := by
  intro w
  unfold nmbmEraseBlockRange
  rw [getNi_bind_run]
  simp only [ite_run]
  split
  · exact Std.Refl.refl w
  split
  · exact Std.Refl.refl w
  split
  · exact Std.Refl.refl w
  split
  · exact Std.Refl.refl w
  · exact eraseLogicBlocks_opSteps _ _ w

/-! ## Reading and writing -/

theorem modifyPageCache_opSteps {f : Instance → Instance}
    (hf : ∀ ni, (f ni).core = ni.core) : Keeps AnyOpSteps (modifyNi f) := by
  intro w
  have hchip : ChipStep ∅ w (w.mapNi f) :=
    ⟨hf w.ni, rfl, rfl, rfl, fun _ => Effects.of_eq rfl rfl⟩
  have hsteps : OpSteps 0 w (w.mapNi f) := hchip.opSteps fun _ hpb => absurd hpb id
  exact hsteps.any

theorem setPageCache_opSteps (cache : List UInt8) : Keeps AnyOpSteps (setPageCache cache) :=
  modifyPageCache_opSteps fun _ => rfl

theorem needRemap_opSteps (lb pb : ℕ) (w : World) :
    OpSteps lb w (nmbmUpdateInfoTable (assignBlockState pb blockStNeedRemap w).2).2 :=
  (OpStep.setState w pb blockStNeedRemap).steps.trans (OpStep.update _).steps

theorem nmbmReadLogicPage_opSteps (addr : ℕ) (w : World) :
    OpSteps (addr2ba w.ni addr) w (nmbmReadLogicPage addr w).2 := by
  unfold nmbmReadLogicPage
  rw [getNi_bind_run]
  simp only [ite_run]
  split
  · exact Std.Refl.refl w
  split
  · exact Std.Refl.refl w
  generalize ba2addr w.ni (w.ni.blockMapping.getD (addr2ba w.ni addr) (-1)).toNat +
    w.ni.inBlockOffset addr = target
  have hread : OpSteps (addr2ba w.ni addr) w (nmbmReadPhysPage target w).2 :=
    ChipStep.opSteps (S := ∅) (nmbmReadPhysPage_reads target w).chipStep
      (fun _ hpb => absurd hpb id)
  rw [bind_run]
  generalize nmbmReadPhysPage target w = result at hread ⊢
  simp only [ite_run]
  split
  · exact hread
  split
  · exact hread
  · exact hread.trans (needRemap_opSteps _ _ _)

theorem touches_inBlockOffset {ni : Instance} {S : Set ℕ} {ba : ℕ} (hba : ba ∈ S) (addr : ℕ) :
    Touches ni.lower S (ba2addr ni ba + ni.inBlockOffset addr) := by
  intro hsound
  have hoff : ni.inBlockOffset addr < ni.erasesize := Nat.mod_lt _ hsound.erasesize_pos
  exact touches_ba2addr_add rfl hba hoff hsound

theorem recordProgram_opSteps (lb : ℕ) (program : PageProgram) :
    Keeps (OpSteps lb) (recordProgram program) := by
  intro w
  have hchip : ChipStep ∅ w (recordProgram program w).2 :=
    ⟨rfl, rfl, rfl, rfl, fun _ => Effects.of_eq rfl rfl⟩
  exact hchip.opSteps fun _ hpb => absurd hpb id

theorem nmbmWriteLogicPage_opSteps (addr : ℕ) (data oob : Option (List UInt8))
    (mode : OobMode) (w : World) :
    OpSteps (addr2ba w.ni addr) w (nmbmWriteLogicPage addr data oob mode w).2 := by
  unfold nmbmWriteLogicPage
  rw [getNi_bind_run]
  simp only [ite_run]
  split
  · exact Std.Refl.refl w
  rename_i hentry
  have hpb := Instance.maps_of_getD hentry
  split
  · exact Std.Refl.refl w
  generalize (w.ni.blockMapping.getD (addr2ba w.ni addr) (-1)).toNat = pb at hpb ⊢
  have hwrite := ChipStep.opSteps (w := (recordProgram ⟨addr, data, oob⟩ w).2)
    (Keeps.chipStep (nmbmWritePhysPage_step
      (touches_inBlockOffset (Set.mem_singleton pb) addr) data oob mode)) (Maps.singleton hpb)
  replace hwrite : OpSteps (addr2ba w.ni addr) w
      (nmbmWritePhysPage (ba2addr w.ni pb + w.ni.inBlockOffset addr) data oob mode
        (recordProgram ⟨addr, data, oob⟩ w).2).2 :=
    (recordProgram_opSteps (addr2ba w.ni addr) ⟨addr, data, oob⟩ w).trans hwrite
  rw [bind_run, bind_run]
  generalize nmbmWritePhysPage (ba2addr w.ni pb + w.ni.inBlockOffset addr) data oob mode
    (recordProgram ⟨addr, data, oob⟩ w).2 = result at hwrite ⊢
  simp only [ite_run]
  split
  · exact hwrite
  · exact hwrite.trans (needRemap_opSteps _ _ _)

theorem nmbmReadSinglePage_opSteps (addr : UInt64) :
    Keeps AnyOpSteps (nmbmReadSinglePage addr) := by
  intro w
  unfold nmbmReadSinglePage
  rw [getNi_bind_run]
  simp only [ite_run]
  split
  · exact Std.Refl.refl w
  split
  · exact Std.Refl.refl w
  · exact (nmbmReadLogicPage_opSteps _ w).any

theorem nmbmWriteSinglePage_opSteps (addr : UInt64) (data oob : Option (List UInt8))
    (mode : OobMode) : Keeps AnyOpSteps (nmbmWriteSinglePage addr data oob mode) := by
  intro w
  unfold nmbmWriteSinglePage
  rw [getNi_bind_run]
  simp only [ite_run]
  split
  · exact Std.Refl.refl w
  split
  · exact Std.Refl.refl w
  · exact (nmbmWriteLogicPage_opSteps _ _ _ _ w).any

theorem readRangeLoop_opSteps (off fuel size : ℕ) :
    Keeps AnyOpSteps (readRangeLoop off fuel size) := by
  induction fuel generalizing off size with
  | zero => exact Keeps.pure _
  | succ fuel ih =>
      unfold readRangeLoop
      refine Keeps.ite (fun _ => Keeps.pure _) (fun _ w => ?_)
      rw [getNi_bind_run]
      have hrest : ∀ result : ℤ × Page, Keeps AnyOpSteps (do
          StateProgram.when (min (w.ni.writesize - off % w.ni.writesize) size ≠ w.ni.writesize ∧
            result.2.data ≠ []) (modifyNi fun ni =>
              { ni with pageCache := overwrite ni.pageCache 0 result.2.data })
          if result.1 ≠ 0 then
            return (result.1, [])
          let rest ← readRangeLoop (off + min (w.ni.writesize - off % w.ni.writesize) size) fuel
            (size - min (w.ni.writesize - off % w.ni.writesize) size)
          return (rest.1, slice result.2.data (off % w.ni.writesize)
            (min (w.ni.writesize - off % w.ni.writesize) size) ++ rest.2)) := by
        intro result
        refine Keeps.bind (Keeps.when fun _ => modifyPageCache_opSteps fun _ => rfl) fun _ => ?_
        exact Keeps.ite (fun _ => Keeps.pure _) fun _ => (ih _ _).bind fun _ => Keeps.pure _
      exact (nmbmReadLogicPage_opSteps _ w).any.trans (hrest _ _)

theorem nmbmReadRange_opSteps (addr size : UInt64) :
    Keeps AnyOpSteps (nmbmReadRange addr size) := by
  intro w
  unfold nmbmReadRange
  rw [getNi_bind_run]
  simp only [ite_run]
  split
  · exact Std.Refl.refl w
  split
  · exact Std.Refl.refl w
  split
  · exact Std.Refl.refl w
  · exact readRangeLoop_opSteps _ _ _ w

theorem chunkPage_opSteps (leading : ℕ) (chunk : List UInt8) :
    Keeps AnyOpSteps (chunkPage leading chunk) := by
  intro w
  unfold chunkPage
  rw [getNi_bind_run]
  simp only [ite_run]
  split
  · exact Std.Refl.refl w
  · exact setPageCache_opSteps _ w

theorem writeRangeLoop_opSteps (mode : OobMode) (off fuel : ℕ) (data : List UInt8) :
    Keeps AnyOpSteps (writeRangeLoop mode off fuel data) := by
  induction fuel generalizing off data with
  | zero => exact Keeps.pure _
  | succ fuel ih =>
      unfold writeRangeLoop
      refine Keeps.ite (fun _ => Keeps.pure _) (fun _ w => ?_)
      rw [getNi_bind_run]
      refine (chunkPage_opSteps _ _).bind (fun page => ?_) w
      refine Keeps.bind (fun w' => (nmbmWriteLogicPage_opSteps _ _ _ _ w').any) fun ret => ?_
      exact Keeps.ite (fun _ => Keeps.pure _) (fun _ => ih _ _)

theorem nmbmWriteRange_opSteps (addr : UInt64) (data : List UInt8) (mode : OobMode) :
    Keeps AnyOpSteps (nmbmWriteRange addr data mode) := by
  intro w
  unfold nmbmWriteRange
  rw [getNi_bind_run]
  simp only [ite_run]
  split
  · exact Std.Refl.refl w
  split
  · exact Std.Refl.refl w
  split
  · exact Std.Refl.refl w
  · exact (writeRangeLoop_opSteps _ _ _ _).bind (fun _ => Keeps.pure _) w

/-! ## Marking bad, and runs -/

theorem nmbmMarkBadBlock_opSteps (addr : UInt64) : Keeps AnyOpSteps (nmbmMarkBadBlock addr) := by
  intro w
  unfold nmbmMarkBadBlock
  rw [getNi_bind_run]
  simp only [ite_run]
  split
  · exact Std.Refl.refl w
  split
  · exact Std.Refl.refl w
  rename_i hentry
  have hdiscard := (OpStep.discard w _ (Instance.maps_of_getD hentry)).steps
  exact (hdiscard.tail (OpStep.update _)).any

theorem nmbmDetach_opSteps : Keeps AnyOpSteps nmbmDetach := by
  intro w
  have hupdate : OpStep 0 w (nmbmUpdateInfoTable w).2 := OpStep.update w
  exact hupdate.steps.any

theorem Op.exec_opSteps (op : Op) : Keeps AnyOpSteps op.exec := by
  cases op with
  | erase addr size =>
      exact (nmbmEraseBlockRange_opSteps addr size).bind fun _ => Keeps.pure _
  | readPage addr => exact (nmbmReadSinglePage_opSteps addr).bind fun _ => Keeps.pure _
  | readRange addr size => exact (nmbmReadRange_opSteps addr size).bind fun _ => Keeps.pure _
  | writePage addr data oob mode => exact nmbmWriteSinglePage_opSteps addr data oob mode
  | writeRange addr data mode =>
      exact (nmbmWriteRange_opSteps addr data mode).bind fun _ => Keeps.pure _
  | markBad addr => exact nmbmMarkBadBlock_opSteps addr
  | checkBad addr =>
      intro w
      exact Std.Refl.refl w
  | detach => exact nmbmDetach_opSteps

theorem runOps_opSteps (ops : List Op) : Keeps AnyOpSteps (runOps ops) := by
  induction ops with
  | nil => exact Keeps.pure ()
  | cons op ops ih => exact op.exec_opSteps.bind fun _ => ih

end Nwa50ax.Nmbm
