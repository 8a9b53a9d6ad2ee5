import Nwa50ax.Nmbm.Chip

/-!
# Relations that every routine keeps

A relation between states that the operations of the chip, assignments to
members of the instance and entries in the history keep is kept by every
routine that consists of them.  The table routines are gone through once, for
any such relation.
-/

namespace Nwa50ax.Nmbm

open StateProgram

/-- The relation is kept by the steps that all table routines consist of. -/
structure KeptByPrimitives (R : World → World → Prop) : Prop where
  readPage : ∀ addr, Keeps R (lowerReadPage addr)
  writePage : ∀ addr data oob mode, Keeps R (lowerWritePage addr data oob mode)
  eraseBlock : ∀ addr, Keeps R (lowerEraseBlock addr)
  isBadBlock : ∀ addr, Keeps R (lowerIsBadBlock addr)
  markBadBlock : ∀ addr, Keeps R (lowerMarkBadBlock addr)
  modifyNi : ∀ f, Keeps R (modifyNi f)
  record : ∀ call, Keeps R (record call)
  noteTable : ∀ place, Keeps R (noteTable place)
  recordUpdate : ∀ success, Keeps R (recordUpdate success)

theorem Keeps.getNi {R : World → World → Prop} {α : Type} {f : Instance → Driver α}
    (h : ∀ ni, Keeps R (f ni)) : Keeps R (getNi >>= f) :=
  fun w => h w.ni w

namespace KeptByPrimitives

variable {R : World → World → Prop} [Std.Refl R] [IsTrans World R]

/-! ## Pages and blocks -/

theorem readPhysPage (h : KeptByPrimitives R) (addr : ℕ) : Keeps R (nmbmReadPhysPage addr) :=
  tryTimes_keeps (h.readPage addr) _

theorem writePhysPage (h : KeptByPrimitives R) (addr : ℕ) (data oob : Option (List UInt8))
    (mode : OobMode) : Keeps R (nmbmWritePhysPage addr data oob mode) :=
  (tryTimes_keeps (h.writePage addr data oob mode) _).bind fun _ => Keeps.pure _

theorem erasePhysBlock (h : KeptByPrimitives R) (addr : ℕ) : Keeps R (nmbmErasePhysBlock addr) :=
  (tryTimes_keeps (h.eraseBlock addr) _).bind fun _ => Keeps.pure _

theorem markPhysBadBlock (h : KeptByPrimitives R) (ba : ℕ) :
    Keeps R (nmbmMarkPhysBadBlock ba) := by
  refine Keeps.getNi fun ni => Keeps.ite (fun _ => ?_) (fun _ => ?_)
  · exact (h.markBadBlock _).bind fun _ => Keeps.pure _
  · refine (h.modifyNi _).bind fun _ => Keeps.bind ?_ fun _ => Keeps.pure _
    generalize ba2addr ni ba = addr
    induction ni.pagesPerBlock generalizing addr with
    | zero => exact Keeps.pure ()
    | succ count ih =>
        exact Keeps.getNi fun ni => (h.writePhysPage _ _ _ _).bind fun _ => ih _

theorem markBad (h : KeptByPrimitives R) (ba : ℕ) : Keeps R (markBad ba) :=
  (h.markPhysBadBlock ba).bind fun _ => h.modifyNi _

theorem eraseRange (h : KeptByPrimitives R) (ba limit : ℕ) : Keeps R (nmbmEraseRange ba limit) := by
  have hblock : ∀ ba, Keeps R (eraseGoodBlock ba) := by
    intro ba
    refine Keeps.getNi fun ni => Keeps.when fun _ => ?_
    refine (h.record _).bind fun _ => (h.erasePhysBlock _).bind fun success => ?_
    exact Keeps.when fun _ => h.markBad ba
  unfold nmbmEraseRange
  induction limit - ba generalizing ba with
  | zero => exact Keeps.pure ()
  | succ count ih => exact (hblock ba).bind fun _ => ih _

theorem writeVerifyData (h : KeptByPrimitives R) (addr : ℕ) (data : List UInt8) :
    Keeps R (nmbnWriteVerifyData addr data) := by
  unfold nmbnWriteVerifyData
  induction data.length generalizing addr data with
  | zero => exact Keeps.pure _
  | succ fuel ih =>
      unfold writeVerifyLoop
      refine Keeps.ite (fun _ => Keeps.pure _) (fun _ => Keeps.getNi fun ni => ?_)
      refine (h.modifyNi _).bind fun _ => Keeps.getNi fun ni => ?_
      refine (h.writePhysPage _ _ _ _).bind fun success => ?_
      refine Keeps.ite (fun _ => Keeps.pure _) (fun _ => ?_)
      refine (h.readPhysPage _).bind fun result => (h.modifyNi _).bind fun _ => ?_
      refine Keeps.ite (fun _ => Keeps.pure _) (fun _ => ?_)
      exact Keeps.ite (fun _ => Keeps.pure _) (fun _ => ih _ _)

/-! ## Tables -/

theorem writeInfoTable (h : KeptByPrimitives R) (ba limit : ℕ) :
    Keeps R (nmbmWriteInfoTable ba limit) := by
  have hloop : ∀ (data : List UInt8) (blocks : List ℕ) (ba steps : ℕ),
      Keeps R (writeMgmtLoop ba data blocks steps) := by
    intro data blocks ba steps
    induction steps generalizing ba data blocks with
    | zero => exact Keeps.pure _
    | succ steps ih =>
        unfold writeMgmtLoop
        refine Keeps.ite (fun _ => Keeps.pure _) (fun _ => Keeps.getNi fun ni => ?_)
        refine Keeps.ite (fun _ => ih _ _ _) (fun _ => ?_)
        refine (h.record _).bind fun _ => (h.erasePhysBlock _).bind fun erased => ?_
        refine (Keeps.runIf fun _ => h.writeVerifyData _ _).bind fun success => ?_
        refine Keeps.ite (fun _ => ih _ _ _) (fun _ => ?_)
        exact (h.markBad ba).bind fun _ => ih _ _ _
  refine Keeps.getNi fun ni => (hloop _ _ _ _).bind fun place => ?_
  cases place with
  | none => exact Keeps.pure _
  | some place => exact (h.noteTable place).bind fun _ => Keeps.pure _

theorem writeDownwards (h : KeptByPrimitives R) (ba tries : ℕ) :
    Keeps R (writeTableDownwards ba tries) := by
  induction tries generalizing ba with
  | zero => exact Keeps.pure _
  | succ tries ih =>
      refine Keeps.getNi fun ni => (h.writeInfoTable _ _).bind fun place => ?_
      cases place with
      | none => exact ih _
      | some place => exact Keeps.pure _

omit [Std.Refl R] in
theorem markTablesClean (h : KeptByPrimitives R) : Keeps R nmbmMarkTablesClean :=
  (h.record _).bind fun _ => h.modifyNi _

theorem rebuildInfoTable (h : KeptByPrimitives R) : Keeps R nmbmRebuildInfoTable := by
  have hbackup : ∀ endBa, Keeps R (rebuildBackupTable endBa) := by
    intro endBa
    refine Keeps.getNi fun ni => ?_
    cases reserveTableBlocks ni endBa with
    | none => exact Keeps.pure _
    | some nextStartBa =>
        refine (h.writeInfoTable _ _).bind fun place => ?_
        cases place with
        | none => exact Keeps.pure _
        | some place =>
            exact (h.modifyNi _).bind fun _ => (h.eraseRange _ _).bind fun _ => Keeps.pure _
  refine (h.modifyNi _).bind fun _ => Keeps.getNi fun ni => ?_
  refine (h.writeInfoTable _ _).bind fun place => ?_
  cases place with
  | none => exact (h.modifyNi _).bind fun _ => Keeps.pure _
  | some place =>
      exact (h.modifyNi _).bind fun _ => h.markTablesClean.bind fun _ => hbackup _

theorem rescueMainInfoTable (h : KeptByPrimitives R) : Keeps R nmbmRescueMainInfoTable := by
  have hbackup : ∀ endBa, Keeps R (writeNewBackupTable endBa) := by
    intro endBa
    refine (h.modifyNi _).bind fun _ => Keeps.getNi fun ni => ?_
    cases reserveTableBlocks ni endBa with
    | none => exact (h.modifyNi _).bind fun _ => Keeps.pure _
    | some writeBa =>
        refine (h.writeDownwards _ _).bind fun place => ?_
        cases place with
        | none => exact (h.modifyNi _).bind fun _ => Keeps.pure _
        | some place =>
            exact (h.modifyNi _).bind fun _ => (h.eraseRange _ _).bind fun _ => Keeps.pure _
  have hbelow : ∀ tmp, Keeps R (writeMainBelow tmp) := by
    intro tmp
    refine (h.modifyNi _).bind fun _ => Keeps.getNi fun ni => ?_
    refine (h.writeInfoTable _ _).bind fun place => ?_
    cases place with
    | none => exact (h.modifyNi _).bind fun _ => h.markTablesClean.bind fun _ => Keeps.pure _
    | some place =>
        refine (h.modifyNi _).bind fun _ => h.markTablesClean.bind fun _ => ?_
        refine Keeps.ite (fun _ => ?_) (fun _ => hbackup _)
        exact (h.modifyNi _).bind fun _ => Keeps.pure _
  refine Keeps.getNi fun ni => ?_
  cases reserveTableBlocks ni ni.mappingBlocksBa with
  | none => exact (h.modifyNi _).bind fun _ => Keeps.pure _
  | some writeBa =>
      refine (h.writeDownwards _ _).bind fun place => ?_
      cases place with
      | none => exact (h.modifyNi _).bind fun _ => Keeps.pure _
      | some tmp => exact hbelow tmp

theorem writeBothTables (h : KeptByPrimitives R) : Keeps R writeBothTables := by
  have hmain : ∀ limit, Keeps R (writeMainTable limit) := by
    intro limit
    refine Keeps.getNi fun ni => Keeps.ite (fun _ => h.rebuildInfoTable) (fun _ => ?_)
    refine (h.record _).bind fun _ => (h.writeInfoTable _ _).bind fun place => ?_
    cases place with
    | none => exact Keeps.ite (fun _ => h.rebuildInfoTable) (fun _ => h.rescueMainInfoTable)
    | some place =>
        refine (h.modifyNi _).bind fun _ => ?_
        refine (Keeps.when fun _ => h.modifyNi _).bind fun _ => ?_
        exact h.markTablesClean.bind fun _ => Keeps.pure _
  refine Keeps.getNi fun ni => Keeps.ite (fun _ => hmain _) (fun _ => ?_)
  refine (h.writeInfoTable _ _).bind fun place => ?_
  cases place with
  | none => exact (h.modifyNi _).bind fun _ => hmain _
  | some place =>
      exact (h.modifyNi _).bind fun _ => h.markTablesClean.bind fun _ => hmain _

theorem generateInfoTableCache (h : KeptByPrimitives R) : Keeps R nmbmGenerateInfoTableCache :=
  Keeps.getNi fun _ => (h.modifyNi _).bind fun _ => Keeps.pure _

theorem updateInfoTable (h : KeptByPrimitives R) : Keeps R nmbmUpdateInfoTable := by
  have hloop : ∀ rounds, Keeps R (updateInfoTableLoop rounds) := by
    intro rounds
    induction rounds with
    | zero => exact Keeps.pure _
    | succ rounds ih =>
        refine Keeps.getNi fun ni => Keeps.ite (fun _ => ?_) (fun _ => Keeps.pure _)
        refine Keeps.bind ?_ fun success => Keeps.ite (fun _ => Keeps.pure _) (fun _ => ih)
        refine h.generateInfoTableCache.bind fun changed => ?_
        exact Keeps.ite (fun _ => Keeps.pure _) (fun _ => h.writeBothTables)
  refine Keeps.getNi fun ni => (Keeps.runIf fun _ => hloop _).bind fun success => ?_
  exact (h.recordUpdate success).bind fun _ => Keeps.pure _

end KeptByPrimitives

end Nwa50ax.Nmbm
