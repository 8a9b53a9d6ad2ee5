import Nwa50ax.Nmbm.PageWrites
import Nwa50ax.Nmbm.Runs

/-!
# The logic pages as a chip of their own

A client of NMBM sees its requests and the values they return, and from these alone
it can keep book of the logic pages.  Above a chip that fails as it likes, whose blocks
NMBM moves about, a logic page that can be read holds what is written in the book.
-/

namespace Nwa50ax.Nmbm

open ByteBuffer StateProgram

/-! ## The client's view -/

/-- The main data that a logic page is known to hold, by block and page of the block. -/
abbrev Known := ℕ → ℕ → Option (List UInt8)

def Known.setPage (known : Known) (lb pg : ℕ) (content : Option (List UInt8)) : Known :=
  fun lb' pg' => if lb' = lb ∧ pg' = pg then content else known lb' pg'

def Known.setBlocks (known : Known) (lb count : ℕ) (content : Option (List UInt8)) : Known :=
  fun lb' pg => if lb ≤ lb' ∧ lb' < lb + count then content else known lb' pg

/-- Of a range that has been written the whole pages are known: what stands beside a part
of a page comes from the page cache. -/
def Known.writeChunks (ni : Instance) (written : Bool) (off : ℕ) :
    ℕ → List UInt8 → Known → Known
  | 0, _, known => known
  | fuel + 1, data, known =>
      if data = [] then known
      else
        let leading := off % ni.writesize
        let chunk := data.take (ni.writesize - leading)
        Known.writeChunks ni written (off + chunk.length) fuel (data.drop chunk.length)
          (known.setPage (addr2ba ni (off - leading)) (pageOf ni (off - leading))
            (if written = true ∧ chunk.length = ni.writesize then some chunk else none))

def erasedData (ni : Instance) (ret : ℤ) : Option (List UInt8) :=
  if ret = 0 then some (blankPage ni).data else none

/-- What is known after a request that has returned `ret`. -/
def Op.outcome (ni : Instance) : Op → ℤ → Known → Known
  | .erase addr size, ret, known =>
      if size = 0 then known
      else
        let startBa := addr2ba ni addr.toNat
        known.setBlocks startBa (addr2ba ni (addr + size - 1).toNat + 1 - startBa)
          (erasedData ni ret)
  | .writePage addr data _ _, ret, known =>
      known.setPage (addr2ba ni addr.toNat) (pageOf ni addr.toNat) (if ret = 0 then data else none)
  | .writeRange addr data _, ret, known =>
      known.writeChunks ni (ret = 0) addr.toNat data.length data
  | .markBad addr, _, known => known.setBlocks (addr2ba ni addr.toNat) 1 none
  | .readPage _, _, known | .readRange _ _, _, known | .checkBad _, _, known
  | .detach, _, known => known

def Known.after (ni : Instance) (history : List (Op × ℤ)) (known : Known) : Known :=
  history.foldl (fun known request => request.1.outcome ni request.2 known) known

/-- The values that a run of requests returns. -/
def returnsOf : List Op → World → List ℤ
  | [], _ => []
  | op :: ops, w => (op.exec w).1 :: returnsOf ops (op.exec w).2

/-- One book has no more in it than another. -/
def Known.Le (known known' : Known) : Prop :=
  ∀ lb pg data, known lb pg = some data → known' lb pg = some data

section Known

variable {known known' : Known} {lb pg : ℕ} {content content' : Option (List UInt8)}

theorem Known.setPage_le (h : known.Le known')
    (hcontent : ∀ data, content = some data → content' = some data) :
    (known.setPage lb pg content).Le (known'.setPage lb pg content') := by
  intro lb' pg' data hdata
  unfold Known.setPage at hdata ⊢
  split at hdata
  case isTrue hhere => rw [if_pos hhere, hcontent data hdata]
  case isFalse hhere => rw [if_neg hhere, h lb' pg' data hdata]

theorem Known.setPage_none_le : (known.setPage lb pg none).Le known := by
  intro lb' pg' data hdata
  unfold Known.setPage at hdata
  split at hdata
  · cases hdata
  · exact hdata

theorem Known.setBlocks_none {count : ℕ} {lb' : ℕ} {data : List UInt8}
    (h : known.setBlocks lb count none lb' pg = some data) :
    ¬(lb ≤ lb' ∧ lb' < lb + count) ∧ known lb' pg = some data := by
  unfold Known.setBlocks at h
  split at h
  · cases h
  case isFalse hout => exact ⟨hout, h⟩

theorem Known.setBlocks_succ_le (count : ℕ)
    (h : ∀ data, content = some data → content' = some data) :
    (known.setBlocks lb (count + 1) content).Le
      ((known.setBlocks lb 1 content').setBlocks (lb + 1) count content) := by
  intro lb' pg data hdata
  unfold Known.setBlocks at hdata ⊢
  by_cases hrest : lb + 1 ≤ lb' ∧ lb' < lb + 1 + count
  · rw [if_pos (by omega)] at hdata
    rw [if_pos hrest, hdata]
  rw [if_neg hrest]
  by_cases hfirst : lb ≤ lb' ∧ lb' < lb + 1
  · rw [if_pos (by omega)] at hdata
    rw [if_pos hfirst, h data hdata]
  · rw [if_neg (by omega)] at hdata
    rw [if_neg hfirst, hdata]

theorem Known.writeChunks_le (ni : Instance) {written written' : Bool}
    (hwritten : written = true → written' = true) (off fuel : ℕ) (data : List UInt8)
    (h : known.Le known') :
    (known.writeChunks ni written off fuel data).Le
      (known'.writeChunks ni written' off fuel data) := by
  induction fuel generalizing off data known known' with
  | zero => exact h
  | succ fuel ih =>
      simp only [Known.writeChunks]
      split
      · exact h
      · refine ih _ _ (Known.setPage_le h fun chunk hchunk => ?_)
        split at hchunk
        case isTrue hfull => rw [if_pos ⟨hwritten hfull.1, hfull.2⟩, hchunk]
        case isFalse => cases hchunk

theorem Known.writeChunks_none_le (ni : Instance) (off fuel : ℕ) (data : List UInt8) :
    (known.writeChunks ni false off fuel data).Le known := by
  induction fuel generalizing off data known with
  | zero => exact fun _ _ _ => id
  | succ fuel ih =>
      simp only [Known.writeChunks]
      split
      · exact fun _ _ _ => id
      · intro lb' pg' d hd
        exact Known.setPage_none_le lb' pg' d (ih _ _ lb' pg' d hd)

end Known

/-! ## The pages on the chip -/

def Holds (known : Known) (w : World) : Prop :=
  ∀ lb pb pg data, w.ni.Maps lb pb → known lb pg = some data → (w.flash.pages pb pg).data = data

/-- Operations on blocks that only `lb` may be mapped to. -/
theorem Holds.outside {S : Set ℕ} {known : Known} {lb : ℕ} {w w' : World} (h : Holds known w)
    (heffects : Effects S w w') (hmaps : ∀ lb' pb, w'.ni.Maps lb' pb → w.ni.Maps lb' pb)
    (hS : ∀ lb' pb, w.ni.Maps lb' pb → pb ∈ S → lb' = lb) :
    Holds (known.setBlocks lb 1 none) w' := by
  intro lb' pb pg data hm hdata
  obtain ⟨hout, hdata⟩ := Known.setBlocks_none hdata
  replace hm := hmaps lb' pb hm
  rw [heffects.pages fun hmem => hout (by have := hS lb' pb hm hmem; omega)]
  exact h lb' pb pg data hm hdata

/-- The mapped pages hold what is known, provided that the spare blocks have been handed
out from the top. -/
structure Serves (ni₀ : Instance) (known : Known) (w : World) : Prop where
  attached : Attached w
  lower : w.ni.lower = ni₀.lower
  sound : w.ni.lower.Sound
  pages : (∀ c ∈ w.calls, c.TopGood) → Owned w.ni ∧ Holds known w

section Serves

variable {ni₀ : Instance} {known known' : Known} {lb : ℕ} {w w' : World}

theorem Serves.step (h : Serves ni₀ known w) (hcontinues : Continues w w')
    (hlower : w'.ni.lower = w.ni.lower)
    (hpages : (∀ c ∈ w'.calls, c.TopGood) → Owned w.ni → Holds known w →
      Owned w'.ni ∧ Holds known' w') : Serves ni₀ known' w' := by
  refine ⟨hcontinues.attached, hlower.trans h.lower, hlower ▸ h.sound, fun hcalls => ?_⟩
  obtain ⟨howned, hholds⟩ := h.pages fun c hc => hcalls c (hcontinues.mem_calls hc)
  exact hpages hcalls howned hholds

theorem Serves.writesize (h : Serves ni₀ known w) : w.ni.writesize = ni₀.writesize := by
  unfold Instance.writesize
  rw [h.lower]

theorem Serves.weaken (h : Serves ni₀ known w) (hle : known'.Le known) : Serves ni₀ known' w :=
  ⟨h.attached, h.lower, h.sound, fun hcalls =>
    (h.pages hcalls).imp_right fun hholds lb pb pg data hmaps hdata =>
      hholds lb pb pg data hmaps (hle lb pg data hdata)⟩

theorem Serves.chip {S : Set ℕ} (h : Serves ni₀ known w) (hstep : ChipStep S w w')
    (hpages : Owned w.ni → Holds known w → Holds known' w') : Serves ni₀ known' w' :=
  h.step (h.attached.chipStep hstep) hstep.lower fun _ howned hholds =>
    ⟨howned.of_setup (Instance.setup_of_frame (Instance.frame_of_core hstep.core)),
      hpages howned hholds⟩

theorem Serves.reads (h : Serves ni₀ known w) (hstep : ReadStep w w') : Serves ni₀ known w' := by
  have hchip : ChipStep ∅ w w' := hstep.chipStep
  refine h.chip hchip fun _ hholds lb pb pg data hmaps hdata => ?_
  rw [hstep.flash]
  exact hholds lb pb pg data ((hchip.maps_iff lb pb).mp hmaps) hdata

theorem Serves.mapNi (h : Serves ni₀ known w) {f : Instance → Instance}
    (hlower : (f w.ni).lower = w.ni.lower) (hanchors : (f w.ni).anchors = w.ni.anchors)
    (hcount : (f w.ni).blockCount = w.ni.blockCount)
    (hmap : w.ni.mappingBlocksBa ≤ (f w.ni).mappingBlocksTopBa)
    (htop : (f w.ni).mappingBlocksTopBa ≤ w.ni.mappingBlocksTopBa)
    (howned : Owned w.ni → Owned (f w.ni))
    (hmaps : ∀ lb pb pg data, (f w.ni).Maps lb pb → known' lb pg = some data →
      w.ni.Maps lb pb ∧ known lb pg = some data) : Serves ni₀ known' (w.mapNi f) :=
  h.step (h.attached.mapNi hanchors hcount hmap (htop.trans_lt h.attached.tables.top_lt)) hlower
    fun _ hown hholds => ⟨howned hown, fun lb pb pg data hm hdata =>
      hholds lb pb pg data (hmaps lb pb pg data hm hdata).1 (hmaps lb pb pg data hm hdata).2⟩

theorem Serves.setState (h : Serves ni₀ known w) (ba : ℕ) (state : BitVec 32) :
    Serves ni₀ known (w.mapNi (·.setBlockState ba state)) :=
  h.mapNi rfl rfl rfl h.attached.tables.map_le le_rfl (fun hown => hown.congr rfl rfl le_rfl rfl)
    fun _ _ _ _ hmaps hdata => ⟨hmaps, hdata⟩

theorem Serves.unmap (h : Serves ni₀ known w) (lb : ℕ) :
    Serves ni₀ known (w.mapNi (·.unmap lb)) :=
  h.mapNi rfl rfl rfl h.attached.tables.map_le le_rfl (fun hown => hown.unmap lb)
    fun _ _ _ _ hmaps hdata => ⟨maps_unmap hmaps, hdata⟩

theorem Serves.record (h : Serves ni₀ known w) (call : Instance → Call)
    (hconfined : (call w.ni).Confined) : Serves ni₀ known (record call w).2 :=
  h.step (h.attached.record call hconfined) rfl fun _ howned hholds => ⟨howned, hholds⟩

theorem Serves.update (h : Serves ni₀ known w) : Serves ni₀ known (nmbmUpdateInfoTable w).2 := by
  have hstep := (nmbmUpdateInfoTable_layout h.attached.tables).1
  have howned := Owned.update h.attached
  have hcontinues := h.attached.update
  generalize (nmbmUpdateInfoTable w).2 = w' at hstep howned hcontinues ⊢
  have hlower : w'.ni.lower = w.ni.lower := (congrArg Instance.lower hstep.setup :)
  refine h.step hcontinues hlower fun _ hown hholds => ⟨howned hown, ?_⟩
  intro lb pb pg data hmaps hdata
  have hmapping : w'.ni.blockMapping = w.ni.blockMapping :=
    (congrArg Instance.blockMapping hstep.setup :)
  replace hmaps : w.ni.Maps lb pb := by
    unfold Instance.Maps at hmaps ⊢
    rw [← hmapping]
    exact hmaps
  -- the tables are written below the spare blocks that have been handed out
  have hout : pb ∉ Set.Ico w.ni.mgmtStartBa w.ni.mappingBlocksTopBa := by
    have := hown.outside lb pb hmaps
    rw [Set.mem_Ico]
    omega
  rw [(hstep.effects h.sound).pages hout]
  exact hholds lb pb pg data hmaps hdata

theorem Serves.forget (h : Serves ni₀ known w) (lb count : ℕ) :
    Serves ni₀ (known.setBlocks lb count none) w :=
  h.weaken fun _ _ _ hdata => (Known.setBlocks_none hdata).2

theorem Serves.map (h : Serves ni₀ known w) (lb : ℕ) :
    Serves ni₀ (known.setBlocks lb 1 none) (nmbmMapBlock lb w).2 := by
  have hrecord := h.record .mapBlock trivial
  have hcontinues := h.attached.map lb
  rcases nmbmMapBlock_cases h.attached.bounded lb with ⟨-, hrun⟩ | ⟨-, hrun⟩ | ⟨pb, -, -, -, -, hrun⟩
  · rw [hrun]
    exact hrecord.forget lb 1
  · rw [hrun]
    have hupdated := hrecord.update
    have hle := hupdated.attached.tables.map_le
    exact (hupdated.mapNi (f := Instance.exhaust) rfl rfl rfl le_rfl hle
      (fun hown => hown.congr rfl rfl hle rfl) fun _ _ _ _ hmaps hdata => ⟨hmaps, hdata⟩).forget lb 1
  · have howned : (∀ c ∈ (nmbmMapBlock lb w).2.calls, c.TopGood) → Owned w.ni → _ :=
      Owned.map h.attached
    rw [hrun] at howned hcontinues ⊢
    refine h.step hcontinues rfl fun hcalls hown hholds => ⟨howned hcalls hown, ?_⟩
    intro lb' pb' pg data hmaps hdata
    obtain ⟨hout, hdata⟩ := Known.setBlocks_none hdata
    rcases maps_mapTo hmaps with ⟨rfl, -⟩ | ⟨-, hold⟩
    · omega
    · exact hholds lb' pb' pg data hold hdata

theorem Serves.opStep (h : Serves ni₀ known w) (hstep : OpStep lb w w') :
    Serves ni₀ (known.setBlocks lb 1 none) w' := by
  cases hstep with
  | chip S hchip hS =>
      refine h.chip hchip fun howned hholds => hholds.outside (hchip.effects h.sound)
        (fun lb' pb => (hchip.maps_iff lb' pb).mp) fun lb' pb hmaps hpb => ?_
      exact howned.unique lb' lb pb hmaps (hS pb hpb)
  | setState ba state => exact (h.setState ba state).forget lb 1
  | abandon f hf =>
      have hunmapped := h.unmap lb
      have hstate : Serves ni₀ known ((w.mapNi (·.unmap lb)).mapNi f) := by
        rcases hf with rfl | ⟨pb, rfl⟩
        · exact hunmapped
        · exact hunmapped.setState pb blockStBad
      exact (hstate.record .unmapBlock trivial).forget lb 1
  | discard pb hpb =>
      have hmark : ChipStep {pb} (w.mapNi (·.unmap lb))
          (nmbmMarkPhysBadBlock pb (w.mapNi (·.unmap lb))).2 :=
        Keeps.chipStep (nmbmMarkPhysBadBlock_step (Set.mem_singleton pb))
      have hstep := OpStep.discard w pb hpb
      refine h.step (hstep.continues h.attached) hmark.lower fun hcalls howned hholds =>
        ⟨Owned.opStep hstep h.attached hcalls howned, hholds.outside (hmark.effects h.sound)
          (fun lb' pb' hmaps => maps_unmap ((hmark.maps_iff lb' pb').mp hmaps)) ?_⟩
      rintro lb' pb' hmaps rfl
      exact howned.unique lb' lb pb' hmaps hpb
  | map hlb => exact h.map lb
  | update => exact h.update.forget lb 1

theorem Serves.opSteps (h : Serves ni₀ known w) (hsteps : OpSteps lb w w') :
    Serves ni₀ (known.setBlocks lb 1 none) w' := by
  induction hsteps with
  | refl => exact h.forget lb 1
  | tail _ hstep ih =>
      refine (ih.opStep hstep).weaken fun lb' pg data hdata => ?_
      obtain ⟨hout, -⟩ := Known.setBlocks_none hdata
      rw [Known.setBlocks, if_neg hout, hdata]

/-! ## Requests -/

theorem Op.outcome_le (ni : Instance) {ret : ℤ} (hret : ret ≠ 0) (op : Op) (known : Known) :
    (op.outcome ni ret known).Le known := by
  cases op with
  | erase addr size =>
      rw [Op.outcome, erasedData, if_neg hret]
      split
      · exact fun _ _ _ => id
      · exact fun _ _ _ hdata => (Known.setBlocks_none hdata).2
  | writePage addr data oob mode =>
      rw [Op.outcome, if_neg hret]
      exact Known.setPage_none_le
  | writeRange addr data mode =>
      rw [Op.outcome, decide_eq_false hret]
      exact Known.writeChunks_none_le ni _ _ _
  | markBad addr => exact fun _ _ _ hdata => (Known.setBlocks_none hdata).2
  | _ => exact fun _ _ _ => id

theorem Serves.refused (h : Serves ni₀ known w) (op : Op) (ret : ℤ) (hret : ret ≠ 0) :
    Serves ni₀ (op.outcome ni₀ ret known) w :=
  h.weaken (Op.outcome_le ni₀ hret op known)

theorem nmbmErasePhysBlock_blank {addr : ℕ} (h : (nmbmErasePhysBlock addr w).1 = true) (pg : ℕ) :
    (nmbmErasePhysBlock addr w).2.flash.pages (blockOf w.ni addr) pg = blankPage w.ni := by
  have herase : ∀ w : World, (lowerEraseBlock addr w).1.1 = 0 →
      (lowerEraseBlock addr w).2.flash.pages (blockOf w.ni addr) pg = blankPage w.ni := by
    intro w hret
    have hok : (w.pattern w.tick).ret = 0 := hret
    simp [lowerEraseBlock, issue, LowerOp.apply, Flash.setBlock, hok]
  unfold nmbmErasePhysBlock at h ⊢
  simp only [bind_run, pure_run, decide_eq_true_eq] at h ⊢
  generalize nmbmTryCount - 1 = extra at h ⊢
  induction extra generalizing w with
  | zero => exact herase w h
  | succ extra ih =>
      simp only [tryTimes, bind_run, ite_run] at h ⊢
      split at h
      case isTrue hret =>
          rw [if_pos hret]
          exact herase w hret
      case isFalse hret =>
          rw [if_neg hret]
          exact ih h

theorem Serves.erased (h : Serves ni₀ known w) {pb : ℕ} (hpb : w.ni.Maps lb pb)
    (hsteps : OpSteps lb w w')
    (herase : nmbmErasePhysBlock (ba2addr w.ni pb) w = (true, w')) :
    Serves ni₀ (known.setBlocks lb 1 (erasedData ni₀ 0)) w' := by
  have hchip := nmbmErasePhysBlock_chipStep (w := w) pb rfl
  have hblank := nmbmErasePhysBlock_blank (congrArg Prod.fst herase)
  have hblock : blockOf w.ni (ba2addr w.ni pb) = pb :=
    h.sound.blockOf_ba2addr pb h.sound.erasesize_pos
  rw [herase] at hchip hblank
  rw [hblock] at hblank
  have hforgot := h.opSteps hsteps
  refine ⟨hforgot.attached, hforgot.lower, hforgot.sound, fun hcalls =>
    (hforgot.pages hcalls).imp_right fun hholds lb' pb' pg data hmaps hdata => ?_⟩
  unfold Known.setBlocks at hdata
  split at hdata
  case isTrue hhere =>
      obtain rfl : lb' = lb := by omega
      have hentry : (pb' : ℤ) = pb :=
        Option.some.inj (((hchip.maps_iff lb' pb').mp hmaps).symm.trans hpb)
      obtain rfl : pb' = pb := Nat.cast_injective hentry
      have hpage : blankPage w.ni = blankPage ni₀ := by
        unfold blankPage Instance.writesize Instance.oobsize
        rw [h.lower]
      rw [hblank pg, hpage]
      exact Option.some.inj hdata
  case isFalse hout =>
      exact hholds lb' pb' pg data hmaps (by rw [Known.setBlocks, if_neg hout, hdata])

theorem eraseLogicBlockLoop_serves (lb rounds : ℕ) (known : Known) :
    Spec (Serves ni₀ known) (eraseLogicBlockLoop lb rounds)
      (fun ret => Serves ni₀ (known.setBlocks lb 1 (erasedData ni₀ ret))) := by
  induction rounds generalizing known with
  | zero => exact Spec.pure fun _ h => h.forget lb 1
  | succ rounds ih =>
      intro w h
      by_cases hentry : w.ni.blockMapping.getD lb (-1) < 0
      · rw [eraseLogicBlockLoop, getNi_bind_run]
        simp only [ite_run, if_pos hentry]
        exact h.forget lb 1
      obtain ⟨w₁, hsteps, hrun | hrun | ⟨hrun, herase⟩⟩ := eraseLogicBlockLoop_round rounds hentry
      · rw [hrun]
        exact h.opSteps hsteps
      · rw [hrun]
        refine (ih _ w₁ (h.opSteps hsteps)).weaken fun lb' pg data hdata => ?_
        unfold Known.setBlocks at hdata ⊢
        split at hdata
        case isTrue hhere => rw [if_pos hhere, hdata]
        case isFalse hout => rw [if_neg hout, if_neg hout, hdata]
      · rw [hrun]
        have hpb := Instance.maps_of_getD hentry
        generalize (w.ni.blockMapping.getD lb (-1)).toNat = pb at hpb herase
        exact h.erased hpb hsteps herase

theorem nmbmEraseLogicBlock_serves (lb : ℕ) (known : Known) :
    Spec (Serves ni₀ known) (nmbmEraseLogicBlock lb)
      (fun ret => Serves ni₀ (known.setBlocks lb 1 (erasedData ni₀ ret))) :=
  fun w h => eraseLogicBlockLoop_serves lb (w.ni.mappingBlocksTopBa + 2) known w h

theorem eraseLogicBlocks_serves (lb count : ℕ) (known : Known) :
    Spec (Serves ni₀ known) (eraseLogicBlocks lb count)
      (fun r => Serves ni₀ (known.setBlocks lb count (erasedData ni₀ r.1))) := by
  induction count generalizing lb known with
  | zero =>
      refine Spec.pure fun w h => h.weaken fun lb' pg data hdata => ?_
      rwa [Known.setBlocks, if_neg (by omega)] at hdata
  | succ count ih =>
      intro w h
      have hfirst := nmbmEraseLogicBlock_serves lb known w h
      rw [eraseLogicBlocks, getNi_bind_run, bind_run]
      generalize nmbmEraseLogicBlock lb w = r at hfirst ⊢
      obtain ⟨ret, w₁⟩ := r
      rw [ite_run]
      split
      case isTrue hret =>
          refine hfirst.weaken fun lb' pg data hdata => ?_
          obtain ⟨hout, hdata⟩ := Known.setBlocks_none
            ((congrArg (known.setBlocks lb (count + 1) · lb' pg) (if_neg hret)).symm.trans hdata)
          rw [Known.setBlocks, if_neg (by omega), hdata]
      case isFalse hret =>
          refine (ih (lb + 1) _ w₁ hfirst).weaken (Known.setBlocks_succ_le count fun data hdata => ?_)
          rw [erasedData] at hdata ⊢
          split at hdata
          · rw [if_pos (not_not.mp hret), hdata]
          · cases hdata

theorem nmbmEraseBlockRange_serves (addr size : UInt64) (known : Known) :
    Spec (Serves ni₀ known) (nmbmEraseBlockRange addr size)
      (fun r => Serves ni₀ ((Op.erase addr size).outcome ni₀ r.1 known)) := by
  intro w h
  unfold nmbmEraseBlockRange
  rw [getNi_bind_run]
  simp only [ite_run, addr2ba_congr h.lower]
  split
  · exact h.refused (.erase addr size) (-erofs) (by decide)
  split
  · exact h.refused (.erase addr size) (-einval) (by decide)
  split
  · exact h.refused (.erase addr size) (-einval) (by decide)
  rw [Op.outcome]
  split
  · exact h
  · exact eraseLogicBlocks_serves _ _ known w h

/-- A read that succeeds delivers what is known of the page. -/
def Delivers (ni₀ : Instance) (known : Known) (addr : ℕ) (r : ℤ × Page) (w : World) : Prop :=
  r.1 = 0 → (∀ c ∈ w.calls, c.TopGood) → ∀ data,
    known (addr2ba ni₀ addr) (pageOf ni₀ addr) = some data → r.2.data = data

theorem nmbmReadLogicPage_serves (addr : ℕ) (known : Known) :
    Spec (Serves ni₀ known) (nmbmReadLogicPage addr)
      (fun r w' => Serves ni₀ known w' ∧ Delivers ni₀ known addr r w') := by
  intro w h
  unfold nmbmReadLogicPage
  rw [getNi_bind_run]
  simp only [ite_run]
  split
  · exact ⟨h, fun hret => by cases hret⟩
  rename_i hentry
  split
  · exact ⟨h, fun hret => by cases hret⟩
  have hmaps := Instance.maps_of_getD hentry
  generalize (w.ni.blockMapping.getD (addr2ba w.ni addr) (-1)).toNat = pb at hmaps ⊢
  obtain ⟨hblock, hpage⟩ := h.sound.physical_page pb addr
  have hreads := nmbmReadPhysPage_reads (ba2addr w.ni pb + w.ni.inBlockOffset addr) w
  have hresult := (nmbmReadPhysPage_result (ba2addr w.ni pb + w.ni.inBlockOffset addr) w).2
  rw [hblock, hpage] at hresult
  rw [bind_run]
  generalize nmbmReadPhysPage (ba2addr w.ni pb + w.ni.inBlockOffset addr) w = r at hreads hresult ⊢
  have hserves := h.reads hreads
  simp only [ite_run]
  split
  case isTrue hret =>
      refine ⟨hserves, fun _ hcalls data hdata => ?_⟩
      obtain ⟨-, hholds⟩ := h.pages (hreads.calls ▸ hcalls)
      rw [← addr2ba_congr h.lower, ← pageOf_congr h.lower] at hdata
      exact (congrArg Page.data (hresult hret)).trans (hholds _ pb _ data hmaps hdata)
  split
  · exact ⟨hserves, fun hret => by cases hret⟩
  · exact ⟨(hserves.setState pb blockStNeedRemap).update, fun hret => by cases hret⟩

theorem nmbmReadSinglePage_serves (addr : UInt64) (known : Known) :
    Spec (Serves ni₀ known) (nmbmReadSinglePage addr)
      (fun r w' => Serves ni₀ known w' ∧ Delivers ni₀ known addr.toNat r w') := by
  intro w h
  unfold nmbmReadSinglePage
  rw [getNi_bind_run]
  simp only [ite_run]
  split
  · exact ⟨h, fun hret => by cases hret⟩
  split
  · exact ⟨h, fun hret => by cases hret⟩
  · exact nmbmReadLogicPage_serves addr.toNat known w h

theorem Serves.written (h : Serves ni₀ known w) {addr pb : ℕ}
    (hmaps : w.ni.Maps (addr2ba w.ni addr) pb) (data oob : Option (List UInt8)) (mode : OobMode) :
    Serves ni₀ (known.setPage (addr2ba w.ni addr) (pageOf w.ni addr)
        (if (nmbmWritePhysPage (ba2addr w.ni pb + w.ni.inBlockOffset addr) data oob mode
          (recordProgram ⟨addr, data, oob⟩ w).2).1 = true then data else none))
      (nmbmWritePhysPage (ba2addr w.ni pb + w.ni.inBlockOffset addr) data oob mode
        (recordProgram ⟨addr, data, oob⟩ w).2).2 := by
  have hserves : Serves ni₀ known (recordProgram ⟨addr, data, oob⟩ w).2 :=
    ⟨h.attached.of_frame rfl rfl, h.lower, h.sound, h.pages⟩
  generalize hw₀ : (recordProgram ⟨addr, data, oob⟩ w).2 = w₀ at hserves ⊢
  have hni : w₀.ni = w.ni := hw₀ ▸ rfl
  rw [← hni] at hmaps ⊢
  obtain ⟨hblock, hpage⟩ := hserves.sound.physical_page pb addr
  have hchip : ChipStep {pb} w₀ (nmbmWritePhysPage
      (ba2addr w₀.ni pb + w₀.ni.inBlockOffset addr) data oob mode w₀).2 :=
    Keeps.chipStep (nmbmWritePhysPage_step (touches_inBlockOffset (Set.mem_singleton pb) addr)
      data oob mode)
  refine hserves.chip hchip fun howned hholds lb' pb' pg content hm hcontent => ?_
  replace hm := (hchip.maps_iff lb' pb').mp hm
  unfold Known.setPage at hcontent
  split at hcontent
  case isTrue hhere =>
      obtain ⟨rfl, rfl⟩ := hhere
      split at hcontent
      case isTrue hsuccess =>
          subst hcontent
          obtain rfl : pb' = pb := Nat.cast_injective (Option.some.inj (hm.symm.trans hmaps))
          have hdata := nmbmWritePhysPage_success hsuccess
          rw [hblock, hpage] at hdata
          exact hdata
      case isFalse => cases hcontent
  case isFalse hout =>
      rw [nmbmWritePhysPage_pages _ _ _ _ w₀ ?_]
      · exact hholds lb' pb' pg content hm hcontent
      · rw [hblock, hpage]
        by_contra! hsame
        obtain ⟨rfl, rfl⟩ := hsame
        exact hout ⟨howned.unique _ _ _ hm hmaps, rfl⟩

theorem nmbmWriteLogicPage_serves (addr : ℕ) (data oob : Option (List UInt8)) (mode : OobMode)
    (known : Known) :
    Spec (Serves ni₀ known) (nmbmWriteLogicPage addr data oob mode) (fun ret =>
      Serves ni₀ (known.setPage (addr2ba ni₀ addr) (pageOf ni₀ addr)
        (if ret = 0 then data else none))) := by
  intro w h
  rw [← addr2ba_congr h.lower, ← pageOf_congr h.lower]
  unfold nmbmWriteLogicPage
  rw [getNi_bind_run]
  simp only [ite_run]
  split
  · exact h.weaken Known.setPage_none_le
  rename_i hentry
  split
  · exact h.weaken Known.setPage_none_le
  have hmaps := Instance.maps_of_getD hentry
  generalize (w.ni.blockMapping.getD (addr2ba w.ni addr) (-1)).toNat = pb at hmaps ⊢
  have hwritten := h.written hmaps data oob mode
  rw [bind_run, bind_run]
  generalize nmbmWritePhysPage (ba2addr w.ni pb + w.ni.inBlockOffset addr) data oob mode
    (recordProgram ⟨addr, data, oob⟩ w).2 = r at hwritten ⊢
  obtain ⟨success, w₁⟩ := r
  cases success with
  | true => exact hwritten
  | false => exact (hwritten.setState pb blockStNeedRemap).update

theorem nmbmWriteSinglePage_serves (addr : UInt64) (data oob : Option (List UInt8))
    (mode : OobMode) (known : Known) :
    Spec (Serves ni₀ known) (nmbmWriteSinglePage addr data oob mode)
      (fun ret => Serves ni₀ ((Op.writePage addr data oob mode).outcome ni₀ ret known)) := by
  intro w h
  unfold nmbmWriteSinglePage
  rw [getNi_bind_run]
  simp only [ite_run]
  split
  · exact h.refused (.writePage addr data oob mode) (-erofs) (by decide)
  split
  · exact h.refused (.writePage addr data oob mode) (-einval) (by decide)
  · exact nmbmWriteLogicPage_serves addr.toNat data oob mode known w h

theorem readRangeLoop_serves (off fuel size : ℕ) (known : Known) :
    Spec (Serves ni₀ known) (readRangeLoop off fuel size) (fun _ => Serves ni₀ known) := by
  induction fuel generalizing off size with
  | zero => exact Spec.pure fun _ h => h
  | succ fuel ih =>
      intro w h
      rw [readRangeLoop, ite_run]
      split
      · exact h
      rw [getNi_bind_run, bind_run]
      have hread := (nmbmReadLogicPage_serves (off - off % w.ni.writesize) known w h).1
      generalize nmbmReadLogicPage (off - off % w.ni.writesize) w = r at hread ⊢
      have hcache : ∀ {c : Prop} [Decidable c] (cache : Instance → List UInt8),
          ReadStep r.2 (StateProgram.when c
            (modifyNi fun ni => { ni with pageCache := cache ni }) r.2).2 := fun cache =>
        Keeps.when (fun _ _ => ⟨rfl, rfl, rfl, rfl, rfl, rfl⟩) r.2
      rw [bind_run, ite_run]
      split
      · exact hread.reads (hcache _)
      · exact ih _ _ _ (hread.reads (hcache _))

theorem chunkPage_serves (leading : ℕ) (chunk : List UInt8) (known : Known) :
    Spec (Serves ni₀ known) (chunkPage leading chunk) (fun page w' => Serves ni₀ known w' ∧
      (chunk.length = ni₀.writesize → page = chunk)) := by
  intro w h
  unfold chunkPage
  rw [getNi_bind_run, h.writesize]
  simp only [ite_run]
  split
  · exact ⟨h, fun _ => rfl⟩
  case isFalse hpart => exact ⟨h.reads (setPageCache_reads _ w), fun hfull => absurd hfull hpart⟩

theorem writeRangeLoop_serves (mode : OobMode) (off fuel : ℕ) (data : List UInt8) (known : Known) :
    Spec (Serves ni₀ known) (writeRangeLoop mode off fuel data) (fun r =>
      Serves ni₀ (known.writeChunks ni₀ (r.1 = 0) off fuel data)) := by
  induction fuel generalizing off data known with
  | zero => exact Spec.pure fun _ h => h
  | succ fuel ih =>
      intro w h
      rw [writeRangeLoop, ite_run]
      simp only [Known.writeChunks]
      split
      · exact h
      rw [getNi_bind_run, bind_run, bind_run, ite_run, h.writesize]
      generalize data.take (ni₀.writesize - off % ni₀.writesize) = chunk
      obtain ⟨hchunk, hpage⟩ := chunkPage_serves (off % ni₀.writesize) chunk known w h
      generalize chunkPage (off % ni₀.writesize) chunk w = r at hchunk hpage ⊢
      have hwrite := nmbmWriteLogicPage_serves (off - off % ni₀.writesize) (some r.1) none mode known
        r.2 hchunk
      generalize nmbmWriteLogicPage (off - off % ni₀.writesize) (some r.1) none mode r.2 = r'
        at hwrite ⊢
      split
      case isTrue hret =>
          rw [pure_run, decide_eq_false hret]
          refine (hwrite.weaken (Known.setPage_le (fun _ _ _ => id) ?_)).weaken
            (Known.writeChunks_none_le ni₀ _ _ _)
          rintro content ⟨⟩
      case isFalse hret =>
          refine (ih _ _ _ _ hwrite).weaken
            (Known.writeChunks_le ni₀ id _ _ _ (Known.setPage_le (fun _ _ _ => id) ?_))
          intro content hcontent
          split at hcontent
          case isTrue hfull => rw [if_pos (not_not.mp hret), hpage hfull.2, hcontent]
          case isFalse => cases hcontent

theorem nmbmMarkBadBlock_serves (addr : UInt64) (known : Known) :
    Spec (Serves ni₀ known) (nmbmMarkBadBlock addr) (fun _ =>
      Serves ni₀ (known.setBlocks (addr2ba ni₀ addr.toNat) 1 none)) := by
  intro w h
  unfold nmbmMarkBadBlock
  rw [getNi_bind_run]
  simp only [ite_run, addr2ba_congr h.lower]
  split
  · exact h.forget _ _
  split
  · exact h.forget _ _
  rename_i hentry
  exact (h.opStep (OpStep.discard w _ (Instance.maps_of_getD hentry))).update

theorem Op.exec_serves (op : Op) (known : Known) :
    Spec (Serves ni₀ known) op.exec (fun ret => Serves ni₀ (op.outcome ni₀ ret known)) := by
  intro w h
  cases op with
  | erase addr size => exact nmbmEraseBlockRange_serves addr size known w h
  | readPage addr => exact (nmbmReadSinglePage_serves addr known w h).1
  | writePage addr data oob mode => exact nmbmWriteSinglePage_serves addr data oob mode known w h
  | markBad addr => exact nmbmMarkBadBlock_serves addr known w h
  | checkBad addr => exact h
  | detach => exact h.update
  | readRange addr size =>
      simp only [Op.exec, bind_run, pure_run, nmbmReadRange, ite_run]
      split
      · exact h
      split
      · exact h
      split
      · exact h
      · exact readRangeLoop_serves _ _ _ known w h
  | writeRange addr data mode =>
      simp only [Op.exec, bind_run, pure_run, nmbmWriteRange, ite_run]
      split
      · exact h.refused (.writeRange addr data mode) (-erofs) (by decide)
      split
      · exact h.refused (.writeRange addr data mode) (-einval) (by decide)
      split
      · exact h.refused (.writeRange addr data mode) (-einval) (by decide)
      · exact writeRangeLoop_serves mode addr.toNat data.length data known w h

theorem runOps_serves (ops : List Op) (h : Serves ni₀ known w) :
    Serves ni₀ (known.after ni₀ (ops.zip (returnsOf ops w))) (runOps ops w).2 := by
  induction ops generalizing known w with
  | nil => exact h
  | cons op ops ih => exact ih (op.exec_serves known w h)

end Serves

/-- A logic page that is read successfully holds what the client knows it to hold, for
all requests and all failures of the chip in which the spare blocks are handed out from
the top. -/
theorem logical_pages_kept {nld : LowerDevice} {flash : Flash} {pattern : ℕ → Response}
    {w₀ w w' : World} {ops : List Op} (hattach : FreshAttach nld flash pattern w₀)
    (hsound : w₀.ni.lower.Sound) (hrun : runOps ops w₀ = ((), w))
    (hcalls : ∀ c ∈ w'.calls, c.TopGood) {addr : UInt64} {page : Page}
    (hread : nmbmReadSinglePage addr w = ((0, page), w')) {data : List UInt8}
    (hknown : Known.after w₀.ni (ops.zip (returnsOf ops w₀)) (fun _ _ => none)
      (addr2ba w₀.ni addr.toNat) (pageOf w₀.ni addr.toNat) = some data) : page.data = data := by
  have hinit : Serves w₀.ni (fun _ _ => none) w₀ :=
    ⟨hattach.attached, rfl, hsound, fun h => ⟨hattach.owned h, fun _ _ _ _ _ hdata => by cases hdata⟩⟩
  have hserves := runOps_serves ops hinit
  rw [hrun] at hserves
  have hresult := (nmbmReadSinglePage_serves addr _ w hserves).2
  rw [hread] at hresult
  exact hresult rfl hcalls data hknown

/-- Requests on the small chip: the first block is given up after the second has been
erased and written. -/
def bookedOps : List Op :=
  [.erase 0 512, .writePage 256 (some (List.replicate 64 7)) none .placeOob, .markBad 0]

def bookedRun : World := (runOps bookedOps (smallAttach 8 [0]).2).2

theorem bookedRun_run : runOps bookedOps (smallAttach 8 [0]).2 = ((), bookedRun) := Prod.ext rfl rfl

theorem logical_pages_kept_small :
    (nmbmReadSinglePage 256 bookedRun).1.1 = 0 ∧
      (nmbmReadSinglePage 256 bookedRun).1.2.data = List.replicate 64 7 := by
  have hfields : (fun r : (ℤ × Page) × World => (r.1.1, decide (∀ c ∈ r.2.calls, c.TopGood)))
      (nmbmReadSinglePage 256 bookedRun) = (0, true) := by
    decide +kernel
  obtain ⟨hret, hcalls⟩ := Prod.mk.inj hfields
  have hpair : ∀ r : (ℤ × Page) × World, r.1.1 = 0 → r = ((0, r.1.2), r.2) := by
    rintro ⟨⟨_, _⟩, _⟩ rfl
    rfl
  have hsound : (smallAttach 8 [0]).2.ni.lower.Sound := ⟨by decide +kernel, by decide +kernel⟩
  exact ⟨hret, logical_pages_kept (smallAttach_fresh smallAttach_ret) hsound bookedRun_run
    (of_decide_eq_true hcalls) (hpair _ hret) (by decide +kernel)⟩

end Nwa50ax.Nmbm
