import Nwa50ax.Nmbm.Content

/-!
# Writing management blocks

Writing a table may turn good blocks of its range into bad ones and changes
nothing else of the instance.  A table that has been placed can be read back
from the blocks it occupies.
-/

namespace Nwa50ax.Nmbm

open ByteBuffer StateProgram

/-- The part of the instance that writing management blocks leaves alone. -/
def Instance.frame (ni : Instance) : Instance :=
  { ni with pageCache := [], blockState := [], blockStateChanged := 0 }

theorem Instance.frame_of_core {ni ni' : Instance} (h : ni'.core = ni.core) :
    ni'.frame = ni.frame := by
  have hframe := congrArg Instance.frame h
  exact hframe

/-! ## Block states that get worse -/

/-- Good blocks in `[lo, hi)` may have become bad, other states are as before,
and the change counter has grown if the table has changed. -/
structure StatesWorsen (lo hi : ℕ) (ni ni' : Instance) : Prop where
  state : ∀ ba, nmbmGetBlockState ni' ba = nmbmGetBlockState ni ba ∨
    (lo ≤ ba ∧ ba < hi ∧ ni.Good ba ∧ nmbmGetBlockState ni' ba = blockStBad)
  count : ni.blockStateChanged ≤ ni'.blockStateChanged
  unchanged : ni'.blockStateChanged = ni.blockStateChanged →
    ni'.blockState = ni.blockState
  length : ni'.blockState.length = ni.blockState.length
  good : ni'.goodBlocks.card ≤ ni.goodBlocks.card
  potential : ni'.blockStateChanged + ni'.goodBlocks.card ≤
    ni.blockStateChanged + ni.goodBlocks.card

section StatesWorsen

variable {lo hi lo' hi' ba : ℕ} {ni ni' : Instance}

theorem StatesWorsen.refl (lo hi : ℕ) (ni : Instance) : StatesWorsen lo hi ni ni :=
  ⟨fun _ => .inl rfl, le_rfl, fun _ => rfl, rfl, le_rfl, le_rfl⟩

theorem StatesWorsen.trans {ni₁ ni₂ ni₃ : Instance}
    (h : StatesWorsen lo hi ni₁ ni₂) (h' : StatesWorsen lo hi ni₂ ni₃) :
    StatesWorsen lo hi ni₁ ni₃ := by
  refine ⟨fun ba => ?_, h.count.trans h'.count, fun hcount => ?_,
    h'.length.trans h.length, h'.good.trans h.good, h'.potential.trans h.potential⟩
  · rcases h'.state ba with hsame | ⟨hlo, hhi, hgood, hbad⟩
    · rw [hsame]
      exact h.state ba
    · rcases h.state ba with hsame | ⟨_, _, _, hbad'⟩
      · exact .inr ⟨hlo, hhi, hsame.symm.trans hgood, hbad⟩
      · exact absurd (hbad'.symm.trans hgood) blockStBad_ne_blockStGood
  · have hle := h.count
    have hle' := h'.count
    rw [h'.unchanged (by omega), h.unchanged (by omega)]

theorem StatesWorsen.mono (h : StatesWorsen lo hi ni ni')
    (hlo : lo' ≤ lo) (hhi : hi ≤ hi') : StatesWorsen lo' hi' ni ni' := by
  refine ⟨fun ba => ?_, h.count, h.unchanged, h.length, h.good, h.potential⟩
  rcases h.state ba with hsame | ⟨hlo₁, hhi₁, hgood, hbad⟩
  · exact .inl hsame
  · exact .inr ⟨hlo.trans hlo₁, lt_of_lt_of_le hhi₁ hhi, hgood, hbad⟩

theorem StatesWorsen.good_of_good (h : StatesWorsen lo hi ni ni')
    (hgood : ni'.Good ba) : ni.Good ba := by
  rcases h.state ba with hsame | ⟨_, _, hgood', _⟩
  · exact hsame.symm.trans hgood
  · exact hgood'

theorem StatesWorsen.of_core (lo hi : ℕ) (h : ni'.core = ni.core) :
    StatesWorsen lo hi ni ni' := by
  have hstate : ni'.blockState = ni.blockState := by
    have hfield := congrArg Instance.blockState h
    exact hfield
  have hcount : ni'.blockStateChanged = ni.blockStateChanged := by
    have hfield := congrArg Instance.blockStateChanged h
    exact hfield
  have hgood := goodBlocks_congr hstate
  refine ⟨fun ba => .inl (congrArg (nmbmGetBlockStateRaw · ba) hstate), hcount.ge,
    fun _ => hstate, congrArg List.length hstate, ?_, ?_⟩
  · rw [hgood]
  · rw [hgood, hcount]

theorem setBlockState_bad_worsens (hlo : lo ≤ ba) (hhi : ba < hi) (hgood : ni.Good ba) :
    StatesWorsen lo hi ni (ni.setBlockState ba blockStBad) := by
  refine ⟨fun b => ?_, Nat.le_add_right _ _, setBlockState_blockState_of_unchanged,
    length_nmbmSetBlockStateRaw _ _ _, ?_, (setBlockState_bad_potential hgood).le⟩
  · by_cases hb : b = ba
    · subst b
      refine .inr ⟨hlo, hhi, hgood, ?_⟩
      rw [nmbmGetBlockState_setBlockState_self _ hgood.inTable]
      rfl
    · exact .inl (nmbmGetBlockState_setBlockState_other _ _ hb)
  · rw [goodBlocks_setBlockState_bad hgood]
    exact Finset.card_le_card (Finset.erase_subset ba _)

end StatesWorsen

/-! ## Steps on management blocks -/

/-- The call is an erase or program of a block in `[lo, hi)`, made by an
instance whose frame is that of `ni`. -/
def MgmtCall (lo hi : ℕ) (ni : Instance) (call : Call) : Prop :=
  ∃ n ba, call = .mgmtBlock n ba ∧ n.frame = ni.frame ∧ lo ≤ ba ∧ ba < hi

/-- The step has written management blocks in `[lo, hi)`. -/
structure MgmtStep (lo hi : ℕ) (w w' : World) : Prop where
  frame : w'.ni.frame = w.ni.frame
  states : StatesWorsen lo hi w.ni w'.ni
  pattern : w'.pattern = w.pattern
  tableBlocks : w'.tableBlocks = w.tableBlocks
  calls : ∃ calls, w'.calls = w.calls ++ calls ∧ ∀ c ∈ calls, MgmtCall lo hi w.ni c
  effects : w.ni.lower.Sound → Effects (Set.Ico lo hi) w w'

section MgmtStep

variable {lo hi lo' hi' ba : ℕ} {w w' : World}

theorem MgmtStep.lower (h : MgmtStep lo hi w w') : w'.ni.lower = w.ni.lower := by
  have hlower := congrArg Instance.lower h.frame
  exact hlower

theorem MgmtStep.of_chipStep {S : Set ℕ} (h : ChipStep S w w') (hS : S ⊆ Set.Ico lo hi) :
    MgmtStep lo hi w w' where
  frame := Instance.frame_of_core h.core
  states := StatesWorsen.of_core lo hi h.core
  pattern := h.pattern
  tableBlocks := h.tableBlocks
  calls := ⟨[], by simp [h.calls], by simp⟩
  effects hsound := (h.effects hsound).mono hS

theorem MgmtStep.refl (lo hi : ℕ) (w : World) : MgmtStep lo hi w w :=
  MgmtStep.of_chipStep (S := ∅) (Std.Refl.refl w) (Set.empty_subset _)

theorem MgmtStep.trans {w₁ w₂ w₃ : World}
    (h : MgmtStep lo hi w₁ w₂) (h' : MgmtStep lo hi w₂ w₃) : MgmtStep lo hi w₁ w₃ := by
  refine ⟨h'.frame.trans h.frame, h.states.trans h'.states,
    h'.pattern.trans h.pattern, h'.tableBlocks.trans h.tableBlocks, ?_,
    fun hsound => (h.effects hsound).trans (h'.effects (h.lower ▸ hsound))⟩
  obtain ⟨calls, hcalls, hmgmt⟩ := h.calls
  obtain ⟨calls', hcalls', hmgmt'⟩ := h'.calls
  refine ⟨calls ++ calls', by rw [hcalls', hcalls, List.append_assoc], ?_⟩
  intro c hc
  rcases List.mem_append.mp hc with hold | hnew
  · exact hmgmt c hold
  · obtain ⟨n, ba, rfl, hframe, hlo, hhi⟩ := hmgmt' c hnew
    exact ⟨n, ba, rfl, hframe.trans h.frame, hlo, hhi⟩

theorem MgmtStep.mono (h : MgmtStep lo hi w w') (hlo : lo' ≤ lo) (hhi : hi ≤ hi') :
    MgmtStep lo' hi' w w' := by
  refine ⟨h.frame, h.states.mono hlo hhi, h.pattern, h.tableBlocks, ?_,
    fun hsound => (h.effects hsound).mono (Set.Ico_subset_Ico hlo hhi)⟩
  obtain ⟨calls, hcalls, hmgmt⟩ := h.calls
  refine ⟨calls, hcalls, fun c hc => ?_⟩
  obtain ⟨n, ba, rfl, hframe, hlo₁, hhi₁⟩ := hmgmt c hc
  exact ⟨n, ba, rfl, hframe, hlo.trans hlo₁, lt_of_lt_of_le hhi₁ hhi⟩

theorem singleton_subset_Ico (hlo : lo ≤ ba) (hhi : ba < hi) :
    ({ba} : Set ℕ) ⊆ Set.Ico lo hi := by
  rw [Set.singleton_subset_iff]
  exact ⟨hlo, hhi⟩

theorem record_mgmtBlock_step (hlo : lo ≤ ba) (hhi : ba < hi) (w : World) :
    MgmtStep lo hi w (record (.mgmtBlock · ba) w).2 := by
  refine ⟨rfl, StatesWorsen.refl lo hi _, rfl, rfl, ⟨[.mgmtBlock w.ni ba], rfl, ?_⟩,
    fun _ => Effects.of_eq rfl rfl⟩
  intro c hc
  rw [List.mem_singleton] at hc
  exact ⟨w.ni, ba, hc, rfl, hlo, hhi⟩

theorem markBad_step (hlo : lo ≤ ba) (hhi : ba < hi) (hgood : w.ni.Good ba) :
    MgmtStep lo hi w (markBad ba w).2 := by
  have hchip : ChipStep {ba} w (nmbmMarkPhysBadBlock ba w).2 :=
    Keeps.chipStep (nmbmMarkPhysBadBlock_step (Set.mem_singleton ba))
  have hgood' : (nmbmMarkPhysBadBlock ba w).2.ni.Good ba := (hchip.good_iff ba).mpr hgood
  refine (MgmtStep.of_chipStep hchip (singleton_subset_Ico hlo hhi)).trans ?_
  exact ⟨rfl, setBlockState_bad_worsens hlo hhi hgood', rfl, rfl,
    ⟨[], (List.append_nil _).symm, by simp⟩, fun _ => Effects.of_eq rfl rfl⟩

theorem nmbmErasePhysBlock_chipStep (ba : ℕ) {ni : Instance} (hni : ni.lower = w.ni.lower) :
    ChipStep {ba} w (nmbmErasePhysBlock (ba2addr ni ba) w).2 :=
  Keeps.chipStep (nmbmErasePhysBlock_step (touches_ba2addr hni (Set.mem_singleton ba)))

theorem recordedErase_step (hlo : lo ≤ ba) (hhi : ba < hi) (w : World) :
    MgmtStep lo hi w
      (nmbmErasePhysBlock (ba2addr w.ni ba) (record (.mgmtBlock · ba) w).2).2 :=
  (record_mgmtBlock_step hlo hhi w).trans
    (MgmtStep.of_chipStep (nmbmErasePhysBlock_chipStep ba rfl)
      (singleton_subset_Ico hlo hhi))

theorem recordedErase_good (hgood : w.ni.Good ba) :
    (nmbmErasePhysBlock (ba2addr w.ni ba) (record (.mgmtBlock · ba) w).2).2.ni.Good ba :=
  ((nmbmErasePhysBlock_chipStep (w := (record (.mgmtBlock · ba) w).2) ba rfl).good_iff
    ba).mpr hgood

theorem eraseGoodBlock_step (hlo : lo ≤ ba) (hhi : ba < hi) (w : World) :
    MgmtStep lo hi w (eraseGoodBlock ba w).2 := by
  unfold eraseGoodBlock
  rw [getNi_bind_run, when_run]
  by_cases hgood : nmbmGetBlockState w.ni ba = blockStGood
  · rw [if_pos hgood]
    simp only [bind_run, when_run]
    have herase := recordedErase_step hlo hhi w
    by_cases hfail :
        (nmbmErasePhysBlock (ba2addr w.ni ba) (record (.mgmtBlock · ba) w).2).1 = false
    · rw [if_pos hfail]
      exact herase.trans (markBad_step hlo hhi (recordedErase_good hgood))
    · rw [if_neg hfail]
      exact herase
  · rw [if_neg hgood]
    exact MgmtStep.refl lo hi w

theorem eraseBlocksFrom_step {count : ℕ} (hlo : lo ≤ ba) (hhi : ba + count ≤ hi)
    (w : World) : MgmtStep lo hi w (eraseBlocksFrom ba count w).2 := by
  induction count generalizing ba w with
  | zero => exact MgmtStep.refl lo hi w
  | succ count ih =>
      unfold eraseBlocksFrom
      have hfirst := eraseGoodBlock_step hlo (by omega : ba < hi) w
      exact hfirst.trans (ih (by omega) (by omega) _)

theorem nmbmEraseRange_step (lo hi : ℕ) (w : World) :
    MgmtStep lo hi w (nmbmEraseRange lo hi w).2 := by
  unfold nmbmEraseRange
  by_cases hle : lo ≤ hi
  · exact eraseBlocksFrom_step le_rfl (by omega) w
  · have hzero : hi - lo = 0 := by omega
    rw [hzero]
    exact MgmtStep.refl lo hi w

end MgmtStep

/-! ## Placing management data -/

theorem writeMgmtLoop_good
    {ba : ℕ} {data : List UInt8} {w : World} (steps : ℕ) (blocks : List ℕ)
    (hdata : data ≠ []) (hgood : w.ni.Good ba) :
    ∃ w₁, MgmtStep ba (ba + 1) w w₁ ∧
      ((writeMgmtLoop ba data blocks (steps + 1) w =
          writeMgmtLoop (ba + 1) (data.drop w.ni.erasesize) (blocks ++ [ba]) steps w₁ ∧
        (w.ni.lower.Sound →
          blockBytes w.ni w₁.flash ba (min data.length w.ni.erasesize) =
            data.take w.ni.erasesize)) ∨
      writeMgmtLoop ba data blocks (steps + 1) w =
        writeMgmtLoop (ba + 1) data blocks steps w₁) := by
  have herase := recordedErase_step (le_refl ba) (Nat.lt_succ_self ba) w
  have hgood₁ := recordedErase_good hgood
  have hstate : ¬nmbmGetBlockState w.ni ba ≠ blockStGood := not_not.mpr hgood
  rw [writeMgmtLoop, ite_run, if_neg hdata, getNi_bind_run, ite_run, if_neg hstate,
    bind_run, bind_run]
  generalize nmbmErasePhysBlock (ba2addr w.ni ba) (record (.mgmtBlock · ba) w).2 = r₁
    at herase hgood₁ ⊢
  have hfail : ∀ w₂, MgmtStep ba (ba + 1) w w₂ → w₂.ni.Good ba →
      MgmtStep ba (ba + 1) w (markBad ba w₂).2 :=
    fun w₂ hstep hgood₂ => hstep.trans (markBad_step le_rfl (Nat.lt_succ_self ba) hgood₂)
  by_cases herased : r₁.1 = true
  · rw [bind_run, runIf_run, if_pos herased]
    have hlen : (data.take w.ni.erasesize).length = min data.length w.ni.erasesize := by
      rw [List.length_take, Nat.min_comm]
    have hchip : ChipStep {ba} r₁.2
        (nmbnWriteVerifyData (ba2addr w.ni ba) (data.take w.ni.erasesize) r₁.2).2 :=
      Keeps.chipStep (nmbnWriteVerifyData_step herase.lower.symm (Set.mem_singleton ba)
        (List.length_take_le _ _))
    have hresult : w.ni.lower.Sound →
        (nmbnWriteVerifyData (ba2addr w.ni ba) (data.take w.ni.erasesize) r₁.2).1 = true →
        blockBytes w.ni (nmbnWriteVerifyData (ba2addr w.ni ba)
          (data.take w.ni.erasesize) r₁.2).2.flash ba (min data.length w.ni.erasesize) =
          data.take w.ni.erasesize := by
      intro hsound hsuccess
      rw [← hlen]
      exact nmbnWriteVerifyData_result herase.lower hsound (List.length_take_le _ _) hsuccess
    generalize nmbnWriteVerifyData (ba2addr w.ni ba) (data.take w.ni.erasesize) r₁.2 = r₂
      at hchip hresult ⊢
    have hstep₂ : MgmtStep ba (ba + 1) w r₂.2 := herase.trans
      (MgmtStep.of_chipStep hchip (singleton_subset_Ico le_rfl (Nat.lt_succ_self ba)))
    by_cases hsuccess : r₂.1 = true
    · rw [ite_run, if_pos hsuccess]
      exact ⟨r₂.2, hstep₂, .inl ⟨rfl, fun hsound => hresult hsound hsuccess⟩⟩
    · rw [ite_run, if_neg hsuccess]
      exact ⟨_, hfail r₂.2 hstep₂ ((hchip.good_iff ba).mpr hgood₁), .inr rfl⟩
  · rw [bind_run, runIf_run, if_neg herased, ite_run, if_neg Bool.false_ne_true]
    exact ⟨_, hfail r₁.2 herase hgood₁, .inr rfl⟩

/-- The blocks that `nmbm_write_mgmt_range` has written the rest of the data
to, when it started at `ba` and ended at `endBa`. -/
structure WrittenTo (w w' : World) (data : List UInt8) (ba endBa : ℕ) (new : List ℕ) :
    Prop where
  sorted : new.Pairwise (· < ·)
  range : ∀ b ∈ new, ba ≤ b ∧ b < endBa
  nonempty : data ≠ [] → new ≠ []
  good : ∀ b ∈ new, w.ni.Good b
  content : w.ni.lower.Sound → tableBytes w.ni w'.flash new data.length = data

theorem MgmtStep.pages {lo hi : ℕ} {w w' : World} (h : MgmtStep lo hi w w')
    (hsound : w.ni.lower.Sound) {ba : ℕ} (hba : ba < lo ∨ hi ≤ ba) :
    w'.flash.pages ba = w.flash.pages ba := by
  refine (h.effects hsound).pages fun hmem => ?_
  have hmem' := Set.mem_Ico.mp hmem
  omega

theorem WrittenTo.nil (w w' : World) (ba : ℕ) : WrittenTo w w' [] ba ba [] :=
  ⟨List.Pairwise.nil, by simp, fun hne => absurd rfl hne, by simp, fun _ => rfl⟩

theorem WrittenTo.weaken
    {w w₁ w' : World} {data : List UInt8} {ba endBa : ℕ} {new : List ℕ}
    (h : WrittenTo w₁ w' data (ba + 1) endBa new) (hstep : MgmtStep ba (ba + 1) w w₁) :
    WrittenTo w w' data ba endBa new where
  sorted := h.sorted
  range b hb := ⟨by have := (h.range b hb).1; omega, (h.range b hb).2⟩
  nonempty := h.nonempty
  good b hb := hstep.states.good_of_good (h.good b hb)
  content hsound := by
    rw [tableBytes_lower hstep.lower.symm]
    exact h.content (hstep.lower ▸ hsound)

theorem WrittenTo.cons
    {w w₁ w' : World} {data : List UInt8} {ba endBa hi : ℕ} {new : List ℕ}
    (h : WrittenTo w₁ w' (data.drop w.ni.erasesize) (ba + 1) endBa new)
    (hstep : MgmtStep ba (ba + 1) w w₁) (hgood : w.ni.Good ba) (hend : ba < endBa)
    (hrest : MgmtStep (ba + 1) hi w₁ w')
    (hfirst : w.ni.lower.Sound →
      blockBytes w.ni w₁.flash ba (min data.length w.ni.erasesize) =
        data.take w.ni.erasesize) :
    WrittenTo w w' data ba endBa (ba :: new) where
  sorted := List.pairwise_cons.mpr ⟨fun b hb => (h.range b hb).1, h.sorted⟩
  range b hb := by
    rcases List.mem_cons.mp hb with rfl | hnew
    · exact ⟨le_rfl, hend⟩
    · have hrange := h.range b hnew
      omega
  nonempty _ := List.cons_ne_nil _ _
  good b hb := by
    rcases List.mem_cons.mp hb with rfl | hnew
    · exact hgood
    · exact hstep.states.good_of_good (h.good b hnew)
  content hsound := by
    have hsound₁ : w₁.ni.lower.Sound := hstep.lower ▸ hsound
    have hkept : w'.flash.pages ba = w₁.flash.pages ba :=
      hrest.pages hsound₁ (.inl (Nat.lt_succ_self ba))
    have htail := h.content hsound₁
    rw [List.length_drop, tableBytes_lower hstep.lower] at htail
    have hsize : data.length - min data.length w.ni.erasesize =
        data.length - w.ni.erasesize := by omega
    rw [tableBytes, blockBytes_congr _ rfl hkept, hfirst hsound, hsize, htail,
      List.take_append_drop]

/-- What a run of `nmbm_write_mgmt_range` over `[ba, hi)` has done, with
`blocks` written before. -/
structure WritesRange (w : World) (ba hi : ℕ) (data : List UInt8) (blocks : List ℕ)
    (result : Option Placement × World) : Prop where
  step : MgmtStep ba hi w result.2
  start : ∀ place, result.1 = some place → place.startBa = place.blocks.headD 0
  bounds : ∀ place, result.1 = some place → ba ≤ place.endBa ∧ place.endBa ≤ hi
  written : ∀ place, result.1 = some place → ∃ new, place.blocks = blocks ++ new ∧
    WrittenTo w result.2 data ba place.endBa new

theorem WritesRange.done (w : World) {ba hi : ℕ} (hle : ba ≤ hi) (blocks : List ℕ) :
    WritesRange w ba hi [] blocks (some ⟨blocks.headD 0, ba, blocks⟩, w) where
  step := MgmtStep.refl ba hi w
  start place hplace := by cases hplace; rfl
  bounds place hplace := by cases hplace; exact ⟨le_rfl, hle⟩
  written place hplace := by
    cases hplace
    exact ⟨[], (List.append_nil _).symm, WrittenTo.nil w w ba⟩

theorem WritesRange.skip
    {w w₁ : World} {ba hi : ℕ} {data : List UInt8} {blocks : List ℕ}
    {result : Option Placement × World}
    (h : WritesRange w₁ (ba + 1) hi data blocks result) (hlt : ba < hi)
    (hstep : MgmtStep ba (ba + 1) w w₁) : WritesRange w ba hi data blocks result where
  step := (hstep.mono le_rfl hlt).trans (h.step.mono (Nat.le_succ ba) le_rfl)
  start := h.start
  bounds place hplace := by
    have hbounds := h.bounds place hplace
    omega
  written place hplace := by
    obtain ⟨new, hnew, hwritten⟩ := h.written place hplace
    exact ⟨new, hnew, hwritten.weaken hstep⟩

theorem WritesRange.cons
    {w w₁ : World} {ba hi : ℕ} {data : List UInt8} {blocks : List ℕ}
    {result : Option Placement × World}
    (h : WritesRange w₁ (ba + 1) hi (data.drop w.ni.erasesize) (blocks ++ [ba]) result)
    (hlt : ba < hi) (hstep : MgmtStep ba (ba + 1) w w₁) (hgood : w.ni.Good ba)
    (hfirst : w.ni.lower.Sound →
      blockBytes w.ni w₁.flash ba (min data.length w.ni.erasesize) =
        data.take w.ni.erasesize) :
    WritesRange w ba hi data blocks result where
  step := (hstep.mono le_rfl hlt).trans (h.step.mono (Nat.le_succ ba) le_rfl)
  start := h.start
  bounds place hplace := by
    have hbounds := h.bounds place hplace
    omega
  written place hplace := by
    obtain ⟨new, hnew, hwritten⟩ := h.written place hplace
    refine ⟨ba :: new, by rw [hnew, List.append_assoc, List.singleton_append], ?_⟩
    exact hwritten.cons hstep hgood (h.bounds place hplace).1 h.step hfirst

theorem writeMgmtLoop_spec
    (ba steps : ℕ) (data : List UInt8) (blocks : List ℕ) (w : World) :
    WritesRange w ba (ba + steps) data blocks (writeMgmtLoop ba data blocks steps w) := by
  induction steps generalizing ba data blocks w with
  | zero =>
      rw [writeMgmtLoop, pure_run]
      by_cases hdata : data = []
      · rw [if_pos hdata, hdata]
        exact WritesRange.done w le_rfl blocks
      · rw [if_neg hdata]
        exact ⟨MgmtStep.refl _ _ w, nofun, nofun, nofun⟩
  | succ steps ih =>
      have hend : ba + 1 + steps = ba + (steps + 1) := by omega
      by_cases hdata : data = []
      · rw [writeMgmtLoop, ite_run, if_pos hdata, hdata]
        exact WritesRange.done w (by omega) blocks
      by_cases hgood : w.ni.Good ba
      · obtain ⟨w₁, hstep, ⟨hrun, hcontent⟩ | hrun⟩ :=
          writeMgmtLoop_good steps blocks hdata hgood
        · rw [hrun]
          exact (hend ▸ ih (ba + 1) _ _ w₁).cons (by omega) hstep hgood hcontent
        · rw [hrun]
          exact (hend ▸ ih (ba + 1) data blocks w₁).skip (by omega) hstep
      · rw [writeMgmtLoop, ite_run, if_neg hdata, getNi_bind_run, ite_run]
        rw [if_pos (show nmbmGetBlockState w.ni ba ≠ blockStGood from hgood)]
        exact (hend ▸ ih (ba + 1) data blocks w).skip (by omega) (MgmtStep.refl _ _ w)

/-! ## Placing an info table -/

/-- A table occupies blocks of `[lo, hi)`, the first one being its start. -/
structure PlacedIn (lo hi : ℕ) (place : Placement) : Prop where
  start_mem : place.startBa ∈ place.blocks
  start_le : ∀ ba ∈ place.blocks, place.startBa ≤ ba
  lo_le : lo ≤ place.startBa
  lt_end : ∀ ba ∈ place.blocks, ba < place.endBa
  end_le : place.endBa ≤ hi

theorem PlacedIn.start_lt_end {lo hi : ℕ} {place : Placement}
    (h : PlacedIn lo hi place) : place.startBa < place.endBa :=
  h.lt_end _ h.start_mem

theorem WritesRange.placedIn
    {w : World} {ba hi : ℕ} {data : List UInt8} {result : Option Placement × World}
    (h : WritesRange w ba hi data [] result) (hdata : data ≠ [])
    {place : Placement} (hplace : result.1 = some place) : PlacedIn ba hi place := by
  obtain ⟨new, hnew, hwritten⟩ := h.written place hplace
  rw [List.nil_append] at hnew
  have hstart := h.start place hplace
  rw [hnew] at hstart
  cases new with
  | nil => exact absurd rfl (hwritten.nonempty hdata)
  | cons first rest =>
      have hfirst : place.startBa = first := hstart
      refine ⟨?_, ?_, ?_, ?_, (h.bounds place hplace).2⟩
      · rw [hnew, hfirst]
        exact List.mem_cons_self
      · intro b hb
        rw [hnew] at hb
        rw [hfirst]
        rcases List.mem_cons.mp hb with rfl | hrest
        · exact le_rfl
        · exact ((List.pairwise_cons.mp hwritten.sorted).1 b hrest).le
      · rw [hfirst]
        exact (hwritten.range first List.mem_cons_self).1
      · intro b hb
        rw [hnew] at hb
        exact (hwritten.range b hb).2

def World.withTable (w : World) (place : Placement) : World :=
  { w with tableBlocks :=
      fun ba => if ba = place.startBa then place.blocks else w.tableBlocks ba }

theorem nmbmWriteMgmtRange_spec {w : World} (lo hi : ℕ) {data : List UInt8} (hdata : data ≠ []) :
    WritesRange w lo hi data [] (nmbmWriteMgmtRange lo hi data w) := by
  unfold nmbmWriteMgmtRange
  by_cases hle : lo ≤ hi
  · have hloop := writeMgmtLoop_spec lo (hi - lo) data [] w
    rw [Nat.add_sub_cancel' hle] at hloop
    exact hloop
  · have hzero : hi - lo = 0 := by omega
    rw [hzero, writeMgmtLoop, if_neg hdata, pure_run]
    exact ⟨MgmtStep.refl _ _ w, nofun, nofun, nofun⟩

theorem nmbmWriteInfoTable_spec {w : World} (lo hi : ℕ)
    (hcache : w.ni.infoTableCache ≠ []) :
    ∃ w₁, MgmtStep lo hi w w₁ ∧
      (nmbmWriteInfoTable lo hi w = (none, w₁) ∨
        ∃ place, nmbmWriteInfoTable lo hi w = (some place, w₁.withTable place) ∧
          PlacedIn lo hi place ∧
          (w.ni.lower.Sound → tableBytes w.ni w₁.flash place.blocks
            w.ni.infoTableCache.length = w.ni.infoTableCache)) := by
  have hspec := nmbmWriteMgmtRange_spec (w := w) lo hi hcache
  unfold nmbmWriteInfoTable
  rw [getNi_bind_run, bind_run]
  generalize nmbmWriteMgmtRange lo hi w.ni.infoTableCache w = result at hspec ⊢
  refine ⟨result.2, hspec.step, ?_⟩
  cases hplace : result.1 with
  | none => exact .inl rfl
  | some place =>
      refine .inr ⟨place, rfl, hspec.placedIn hcache hplace, fun hsound => ?_⟩
      obtain ⟨new, hnew, hwritten⟩ := hspec.written place hplace
      rw [hnew, List.nil_append]
      exact hwritten.content hsound

end Nwa50ax.Nmbm
