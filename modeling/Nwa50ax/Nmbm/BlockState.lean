import Nwa50ax.Nmbm.Blocks

/-!
# The block state table as a map from blocks to states

The state of a block is a two-bit field of a 32-bit unit.  Setting one field
leaves the others alone, so the table behaves like a map.
-/

namespace Nwa50ax.Nmbm

theorem getLsbD_blockStMask (i : ℕ) : blockStMask.getLsbD i = decide (i < 2) := by
  unfold blockStMask
  by_cases hi : i < 32
  · interval_cases i <;> rfl
  · have h2 : ¬i < 2 := by omega
    simp [BitVec.getLsbD_of_ge _ _ (not_lt.mp hi), h2]

theorem getLsbD_setStateUnit
    (unit state : BitVec 32) (shift : ℕ) {i : ℕ} (hi : i < 32) :
    (setStateUnit unit shift state).getLsbD i =
      if shift ≤ i ∧ i < shift + 2 then state.getLsbD (i - shift)
      else unit.getLsbD i := by
  unfold setStateUnit
  simp only [BitVec.getLsbD_or, BitVec.getLsbD_and, BitVec.getLsbD_not,
    BitVec.getLsbD_shiftLeft, getLsbD_blockStMask, hi]
  by_cases hlow : i < shift
  · have hnot : ¬shift ≤ i := by omega
    simp [hlow, hnot]
  · by_cases hhigh : i < shift + 2
    · have hfield : i - shift < 2 := by omega
      simp [hlow, hhigh, hfield, not_lt.mp hlow]
    · have hfield : ¬i - shift < 2 := by omega
      simp [hlow, hhigh, hfield]

theorem setStateUnit_get_self
    (unit state : BitVec 32) {k : ℕ} (hk : k < 16) :
    (setStateUnit unit (k * 2) state >>> (k * 2)) &&& blockStMask =
      state &&& blockStMask := by
  apply BitVec.eq_of_getLsbD_eq
  intro i hi
  simp only [BitVec.getLsbD_and, BitVec.getLsbD_ushiftRight, getLsbD_blockStMask]
  by_cases h2 : i < 2
  · rw [getLsbD_setStateUnit _ _ _ (by omega)]
    simp [h2]
  · simp [h2]

theorem setStateUnit_get_other
    (unit state : BitVec 32) {k j : ℕ} (hj : j < 16) (hne : j ≠ k) :
    (setStateUnit unit (k * 2) state >>> (j * 2)) &&& blockStMask =
      (unit >>> (j * 2)) &&& blockStMask := by
  apply BitVec.eq_of_getLsbD_eq
  intro i hi
  simp only [BitVec.getLsbD_and, BitVec.getLsbD_ushiftRight, getLsbD_blockStMask]
  by_cases h2 : i < 2
  · rw [getLsbD_setStateUnit _ _ _ (by omega), if_neg (by omega)]
  · simp [h2]

theorem nmbmGetBlockStateRaw_of_ge
    {blockState : List (BitVec 32)} {ba : ℕ} (hba : blockState.length ≤ ba / 16) :
    nmbmGetBlockStateRaw blockState ba = blockStBad := by
  simp [nmbmGetBlockStateRaw, List.getElem?_eq_none hba, blockStBad, blockStMask]

theorem nmbmGetBlockStateRaw_set_self
    {blockState : List (BitVec 32)} {ba : ℕ} (state : BitVec 32)
    (hba : ba / 16 < blockState.length) :
    nmbmGetBlockStateRaw (nmbmSetBlockStateRaw blockState ba state) ba =
      state &&& blockStMask := by
  unfold nmbmGetBlockStateRaw nmbmSetBlockStateRaw
  have hunit :
      (blockState.set (ba / 16)
          (setStateUnit (blockState.getD (ba / 16) 0) (ba % 16 * 2) state)).getD
        (ba / 16) 0 =
      setStateUnit (blockState.getD (ba / 16) 0) (ba % 16 * 2) state := by
    simp [List.getElem?_set_self hba]
  rw [hunit]
  exact setStateUnit_get_self _ _ (Nat.mod_lt _ (by decide))

theorem nmbmGetBlockStateRaw_set_other
    (blockState : List (BitVec 32)) {a b : ℕ} (state : BitVec 32) (hne : b ≠ a) :
    nmbmGetBlockStateRaw (nmbmSetBlockStateRaw blockState a state) b =
      nmbmGetBlockStateRaw blockState b := by
  unfold nmbmGetBlockStateRaw nmbmSetBlockStateRaw
  by_cases hunit : b / 16 = a / 16
  · have hfield : b % 16 ≠ a % 16 := by omega
    by_cases hlen : a / 16 < blockState.length
    · have hget :
          (blockState.set (a / 16)
              (setStateUnit (blockState.getD (a / 16) 0) (a % 16 * 2) state)).getD
            (b / 16) 0 =
          setStateUnit (blockState.getD (b / 16) 0) (a % 16 * 2) state := by
        rw [hunit]
        simp [List.getElem?_set_self hlen]
      rw [hget]
      exact setStateUnit_get_other _ _ (Nat.mod_lt _ (by decide)) hfield
    · rw [List.set_eq_of_length_le (by omega)]
  · have hget :
        (blockState.set (a / 16)
            (setStateUnit (blockState.getD (a / 16) 0) (a % 16 * 2) state)).getD
          (b / 16) 0 = blockState.getD (b / 16) 0 := by
      simp [List.getElem?_set_ne (fun h => hunit h.symm)]
    rw [hget]

theorem nmbmSetBlockStateRaw_of_ge
    {blockState : List (BitVec 32)} {ba : ℕ} (state : BitVec 32)
    (hba : blockState.length ≤ ba / 16) :
    nmbmSetBlockStateRaw blockState ba state = blockState :=
  List.set_eq_of_length_le hba

@[simp] theorem length_nmbmSetBlockStateRaw
    (blockState : List (BitVec 32)) (ba : ℕ) (state : BitVec 32) :
    (nmbmSetBlockStateRaw blockState ba state).length = blockState.length := by
  simp [nmbmSetBlockStateRaw]

theorem nmbmSetBlockStateRaw_of_eq
    {blockState : List (BitVec 32)} {ba : ℕ} {state : BitVec 32}
    (hsame : nmbmGetBlockStateRaw blockState ba = state &&& blockStMask) :
    nmbmSetBlockStateRaw blockState ba state = blockState := by
  by_cases hlen : ba / 16 < blockState.length
  · unfold nmbmSetBlockStateRaw
    have hunit :
        setStateUnit (blockState.getD (ba / 16) 0) (ba % 16 * 2) state =
          blockState.getD (ba / 16) 0 := by
      apply BitVec.eq_of_getLsbD_eq
      intro i hi
      rw [getLsbD_setStateUnit _ _ _ hi]
      split
      · rename_i hfield
        have hbit := congrArg (fun v => BitVec.getLsbD v (i - ba % 16 * 2)) hsame
        simp only [nmbmGetBlockStateRaw, BitVec.getLsbD_and,
          BitVec.getLsbD_ushiftRight, getLsbD_blockStMask] at hbit
        have hlow : i - ba % 16 * 2 < 2 := by omega
        have hpos : ba % 16 * 2 + (i - ba % 16 * 2) = i := by omega
        simp only [hlow, decide_true, Bool.and_true, hpos] at hbit
        exact hbit.symm
      · rfl
    rw [hunit]
    simp [List.getElem?_eq_getElem hlen]
  · exact nmbmSetBlockStateRaw_of_ge state (by omega)

/-! ## Good blocks of an instance -/

def Instance.Good (ni : Instance) (ba : ℕ) : Prop :=
  nmbmGetBlockState ni ba = blockStGood

instance (ni : Instance) (ba : ℕ) : Decidable (ni.Good ba) :=
  inferInstanceAs (Decidable (nmbmGetBlockState ni ba = blockStGood))

theorem blockStBad_ne_blockStGood : blockStBad ≠ blockStGood := by decide

theorem Instance.Good.inTable {ni : Instance} {ba : ℕ} (hgood : ni.Good ba) :
    ba / 16 < ni.blockState.length := by
  by_contra hlen
  have hbad : nmbmGetBlockState ni ba = blockStBad :=
    nmbmGetBlockStateRaw_of_ge (by omega)
  exact blockStBad_ne_blockStGood (hbad.symm.trans hgood)

theorem nmbmGetBlockState_setBlockState_other
    (ni : Instance) {a b : ℕ} (state : BitVec 32) (hne : b ≠ a) :
    nmbmGetBlockState (ni.setBlockState a state) b = nmbmGetBlockState ni b :=
  nmbmGetBlockStateRaw_set_other _ state hne

theorem nmbmGetBlockState_setBlockState_self
    {ni : Instance} {ba : ℕ} (state : BitVec 32)
    (hba : ba / 16 < ni.blockState.length) :
    nmbmGetBlockState (ni.setBlockState ba state) ba = state &&& blockStMask :=
  nmbmGetBlockStateRaw_set_self state hba

theorem setBlockState_blockState_of_unchanged
    {ni : Instance} {ba : ℕ} {state : BitVec 32}
    (hcount : (ni.setBlockState ba state).blockStateChanged = ni.blockStateChanged) :
    (ni.setBlockState ba state).blockState = ni.blockState := by
  by_cases hsame : nmbmGetBlockState ni ba = state &&& blockStMask
  · exact nmbmSetBlockStateRaw_of_eq hsame
  · simp [Instance.setBlockState, hsame] at hcount

/-! ## The number of good blocks -/

def Instance.goodBlocks (ni : Instance) : Finset ℕ :=
  (Finset.range (16 * ni.blockState.length)).filter fun ba => ni.Good ba

theorem Instance.mem_goodBlocks {ni : Instance} {ba : ℕ} :
    ba ∈ ni.goodBlocks ↔ ni.Good ba := by
  unfold Instance.goodBlocks
  rw [Finset.mem_filter, Finset.mem_range]
  refine ⟨And.right, fun hgood => ⟨?_, hgood⟩⟩
  have hunit := hgood.inTable
  omega

theorem goodBlocks_congr {ni ni' : Instance} (hstate : ni'.blockState = ni.blockState) :
    ni'.goodBlocks = ni.goodBlocks := by
  ext ba
  rw [Instance.mem_goodBlocks, Instance.mem_goodBlocks]
  unfold Instance.Good nmbmGetBlockState
  rw [hstate]

theorem goodBlocks_setBlockState_bad {ni : Instance} {ba : ℕ} (hgood : ni.Good ba) :
    (ni.setBlockState ba blockStBad).goodBlocks = ni.goodBlocks.erase ba := by
  ext b
  rw [Finset.mem_erase, Instance.mem_goodBlocks, Instance.mem_goodBlocks]
  by_cases hb : b = ba
  · subst b
    have hbad := nmbmGetBlockState_setBlockState_self blockStBad hgood.inTable
    refine ⟨fun h => absurd (hbad.symm.trans h) ?_, fun h => absurd rfl h.1⟩
    decide
  · unfold Instance.Good
    rw [nmbmGetBlockState_setBlockState_other _ _ hb]
    simp [hb]

theorem setBlockState_bad_potential {ni : Instance} {ba : ℕ} (hgood : ni.Good ba) :
    (ni.setBlockState ba blockStBad).blockStateChanged +
        (ni.setBlockState ba blockStBad).goodBlocks.card =
      ni.blockStateChanged + ni.goodBlocks.card := by
  have hne : ¬nmbmGetBlockState ni ba = blockStBad &&& blockStMask := by
    rw [show nmbmGetBlockState ni ba = blockStGood from hgood]
    decide
  have hcount : (ni.setBlockState ba blockStBad).blockStateChanged =
      ni.blockStateChanged + 1 := by
    unfold Instance.setBlockState
    rw [if_neg hne]
  have hmem := Instance.mem_goodBlocks.mpr hgood
  have hpos := Finset.card_pos.mpr ⟨ba, hmem⟩
  rw [hcount, goodBlocks_setBlockState_bad hgood, Finset.card_erase_of_mem hmem]
  omega

end Nwa50ax.Nmbm
