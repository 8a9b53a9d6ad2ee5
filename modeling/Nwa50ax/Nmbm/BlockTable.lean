import Nwa50ax.Nmbm.Attach
import Nwa50ax.Nmbm.BlockState

/-!
# The block state table as a whole, and walks over it

A set of a block state changes two bits of the table and nothing else.  A walk
goes over the table from a block on, up or down, and returns a good block after
it has skipped a number of them; it is compared with the list of the good blocks
on its way.
-/

namespace Nwa50ax.Nmbm

/-! ## Bits of the table -/

/-- The bit belongs to the state of a block. -/
def InField (ba unit bit : ℕ) : Prop :=
  unit = ba / 16 ∧ ba % 16 * 2 ≤ bit ∧ bit < ba % 16 * 2 + 2

instance (ba unit bit : ℕ) : Decidable (InField ba unit bit) :=
  inferInstanceAs (Decidable (_ ∧ _))

theorem getLsbD_set_of_not_inField
    (blockState : List (BitVec 32)) {ba unit bit : ℕ} (state : BitVec 32)
    (h : ¬InField ba unit bit) :
    ((nmbmSetBlockStateRaw blockState ba state).getD unit 0).getLsbD bit =
      (blockState.getD unit 0).getLsbD bit := by
  unfold nmbmSetBlockStateRaw
  by_cases hunit : ba / 16 = unit
  · subst hunit
    by_cases hlen : ba / 16 < blockState.length
    · by_cases hbit : bit < 32
      · have hfield : ¬(ba % 16 * 2 ≤ bit ∧ bit < ba % 16 * 2 + 2) := fun hin => h ⟨rfl, hin⟩
        have hget := getLsbD_setStateUnit (blockState.getD (ba / 16) 0) state (ba % 16 * 2) hbit
        rw [if_neg hfield] at hget
        rw [List.getD_eq_getElem?_getD, List.getElem?_set_self hlen]
        exact hget
      · rw [BitVec.getLsbD_of_ge _ _ (not_lt.mp hbit), BitVec.getLsbD_of_ge _ _ (not_lt.mp hbit)]
    · rw [List.set_eq_of_length_le (not_lt.mp hlen)]
  · rw [List.getD_eq_getElem?_getD, List.getElem?_set_ne hunit, ← List.getD_eq_getElem?_getD]

theorem getLsbD_set_of_inField
    {blockState : List (BitVec 32)} {ba unit bit : ℕ} (state : BitVec 32)
    (h : InField ba unit bit) (hba : ba / 16 < blockState.length) :
    ((nmbmSetBlockStateRaw blockState ba state).getD unit 0).getLsbD bit =
      state.getLsbD (bit - ba % 16 * 2) := by
  obtain ⟨rfl, hfield⟩ := h
  have hget := getLsbD_setStateUnit (blockState.getD (ba / 16) 0) state (ba % 16 * 2)
    (show bit < 32 by omega)
  rw [if_pos hfield] at hget
  unfold nmbmSetBlockStateRaw
  rw [List.getD_eq_getElem?_getD, List.getElem?_set_self hba]
  exact hget

theorem table_ext {table table' : List (BitVec 32)} (hlen : table.length = table'.length)
    (h : ∀ unit bit, (table.getD unit 0).getLsbD bit = (table'.getD unit 0).getLsbD bit) :
    table = table' := by
  refine List.ext_getElem hlen fun unit hunit hunit' => ?_
  apply BitVec.eq_of_getLsbD_eq
  intro bit _
  have hbits := h unit bit
  rwa [List.getD_eq_getElem?_getD, List.getElem?_eq_getElem hunit, List.getD_eq_getElem?_getD,
    List.getElem?_eq_getElem hunit'] at hbits

theorem not_inField_of_ne {a b unit bit : ℕ} (hne : a ≠ b) (h : InField a unit bit) :
    ¬InField b unit bit := by
  rintro ⟨hunit, hlow, hhigh⟩
  obtain ⟨hunit', hlow', hhigh'⟩ := h
  omega

theorem nmbmSetBlockStateRaw_comm
    (blockState : List (BitVec 32)) {a b : ℕ} (s t : BitVec 32) (hne : a ≠ b) :
    nmbmSetBlockStateRaw (nmbmSetBlockStateRaw blockState a s) b t =
      nmbmSetBlockStateRaw (nmbmSetBlockStateRaw blockState b t) a s := by
  by_cases ha : a / 16 < blockState.length
  · by_cases hb : b / 16 < blockState.length
    · refine table_ext (by simp) fun unit bit => ?_
      by_cases hina : InField a unit bit
      · rw [getLsbD_set_of_not_inField _ _ (not_inField_of_ne hne hina),
          getLsbD_set_of_inField _ hina ha, getLsbD_set_of_inField _ hina (by simpa using ha)]
      · rw [getLsbD_set_of_not_inField _ s hina]
        by_cases hinb : InField b unit bit
        · rw [getLsbD_set_of_inField _ hinb hb, getLsbD_set_of_inField _ hinb (by simpa using hb)]
        · rw [getLsbD_set_of_not_inField _ _ hinb, getLsbD_set_of_not_inField _ _ hinb,
            getLsbD_set_of_not_inField _ _ hina]
    · rw [nmbmSetBlockStateRaw_of_ge t (not_lt.mp hb),
        nmbmSetBlockStateRaw_of_ge t (by simpa using hb)]
  · rw [nmbmSetBlockStateRaw_of_ge s (not_lt.mp ha),
      nmbmSetBlockStateRaw_of_ge s (by simpa using ha)]

/-! ## Sequences of sets -/

def setBlockStates : List (ℕ × BitVec 32) → Driver Unit
  | [] => pure ()
  | (ba, state) :: rest => do
      let _ ← nmbmSetBlockState ba state
      setBlockStates rest

def lastState (sets : List (ℕ × BitVec 32)) (ba : ℕ) : Option (BitVec 32) :=
  (sets.reverse.find? fun entry => entry.1 = ba).map fun entry => entry.2 &&& blockStMask

theorem lastState_cons (entry : ℕ × BitVec 32) (rest : List (ℕ × BitVec 32)) (ba : ℕ) :
    lastState (entry :: rest) ba = (lastState rest ba).or
      (if entry.1 = ba then some (entry.2 &&& blockStMask) else none) := by
  unfold lastState
  rw [List.reverse_cons, List.find?_append]
  cases hrest : rest.reverse.find? fun entry => entry.1 = ba with
  | some found => simp
  | none => by_cases hba : entry.1 = ba <;> simp [hba]

theorem nmbmSetBlockState_run (ba : ℕ) (state : BitVec 32) (w : World) :
    nmbmSetBlockState ba state w =
      (decide (nmbmGetBlockState w.ni ba ≠ state &&& blockStMask),
        { w with ni := w.ni.setBlockState ba state }) := rfl

theorem nmbmGetBlockState_setBlockStates {sets : List (ℕ × BitVec 32)} {w : World} {ba : ℕ}
    (hba : ba / 16 < w.ni.blockState.length) :
    nmbmGetBlockState (setBlockStates sets w).2.ni ba =
      (lastState sets ba).getD (nmbmGetBlockState w.ni ba) := by
  induction sets generalizing w with
  | nil => rfl
  | cons entry rest ih =>
      obtain ⟨a, state⟩ := entry
      have hstep : setBlockStates ((a, state) :: rest) w =
          setBlockStates rest { w with ni := w.ni.setBlockState a state } := rfl
      rw [hstep, ih (by simpa [Instance.setBlockState] using hba), lastState_cons]
      cases hlast : lastState rest ba with
      | some last => rfl
      | none =>
          by_cases ha : a = ba
          · subst ha
            simp [nmbmGetBlockState_setBlockState_self state hba]
          · simp [ha, nmbmGetBlockState_setBlockState_other _ state (Ne.symm ha)]

theorem setBlockState_comm (ni : Instance) {a b : ℕ} (s t : BitVec 32) (hne : a ≠ b) :
    (ni.setBlockState a s).setBlockState b t = (ni.setBlockState b t).setBlockState a s := by
  have hb := nmbmGetBlockState_setBlockState_other ni s (Ne.symm hne)
  have ha := nmbmGetBlockState_setBlockState_other ni t hne
  have htable := nmbmSetBlockStateRaw_comm ni.blockState s t hne
  unfold Instance.setBlockState at ha hb ⊢
  dsimp only at ha hb ⊢
  rw [ha, hb, htable, Nat.add_right_comm]

/-- The table behaves like a map from blocks to states: a set changes the state
of its block only, tells whether it has changed it and counts the change; a
sequence of sets leaves every block in the last state set for it, and sets of
different blocks commute. -/
theorem block_state_table (w : World) (htable : w.ni.blockCount ≤ 16 * w.ni.blockState.length) :
    (∀ a < w.ni.blockCount, ∀ state : BitVec 32,
      let run := nmbmSetBlockState a state w
      nmbmGetBlockState run.2.ni a = state &&& blockStMask ∧
      (∀ b < w.ni.blockCount, b ≠ a →
        nmbmGetBlockState run.2.ni b = nmbmGetBlockState w.ni b) ∧
      run.2.ni.blockState.length = w.ni.blockState.length ∧
      (∀ unit bit, ¬InField a unit bit →
        (run.2.ni.blockState.getD unit 0).getLsbD bit =
          (w.ni.blockState.getD unit 0).getLsbD bit) ∧
      (run.1 = true ↔ nmbmGetBlockState w.ni a ≠ nmbmGetBlockState run.2.ni a) ∧
      run.2.ni.blockStateChanged = w.ni.blockStateChanged + (if run.1 then 1 else 0) ∧
      run.2 = { w with ni := { w.ni with
        blockState := run.2.ni.blockState
        blockStateChanged := run.2.ni.blockStateChanged } }) ∧
    (∀ sets : List (ℕ × BitVec 32), (∀ entry ∈ sets, entry.1 < w.ni.blockCount) →
      ∀ b < w.ni.blockCount, nmbmGetBlockState (setBlockStates sets w).2.ni b =
        (lastState sets b).getD (nmbmGetBlockState w.ni b)) ∧
    ∀ a < w.ni.blockCount, ∀ b < w.ni.blockCount, a ≠ b → ∀ s t : BitVec 32,
      (setBlockStates [(a, s), (b, t)] w).2 = (setBlockStates [(b, t), (a, s)] w).2 := by
  have hinside : ∀ ba < w.ni.blockCount, ba / 16 < w.ni.blockState.length := by
    intro ba hba
    omega
  refine ⟨fun a ha state => ?_, fun sets _ b hb => ?_, fun a _ b _ hne s t => ?_⟩
  · rw [nmbmSetBlockState_run]
    dsimp only
    have hself := nmbmGetBlockState_setBlockState_self state (hinside a ha)
    refine ⟨hself, fun b _ hne => ?_, ?_, fun unit bit hfield => ?_, ?_, ?_, rfl⟩
    · exact nmbmGetBlockState_setBlockState_other w.ni state hne
    · exact length_nmbmSetBlockStateRaw ..
    · exact getLsbD_set_of_not_inField _ state hfield
    · rw [hself, decide_eq_true_eq]
    · unfold Instance.setBlockState
      by_cases hsame : nmbmGetBlockState w.ni a = state &&& blockStMask <;> simp [hsame]
  · exact nmbmGetBlockState_setBlockStates (hinside b hb)
  · show { w with ni := (w.ni.setBlockState a s).setBlockState b t } =
      { w with ni := (w.ni.setBlockState b t).setBlockState a s }
    rw [setBlockState_comm w.ni s t hne]

def goodWorld : World :=
  { World.powerOn ⟨1, 8, true, 0, 0, 0, 0, false, false⟩ ⟨fun _ _ => ⟨[], []⟩, fun _ => false⟩
      (fun _ => Response.ok) with
    ni := { Instance.cleared ⟨1, 8, true, 0, 0, 0, 0, false, false⟩ with
      blockCount := 20
      blockState := [BitVec.allOnes 32, BitVec.allOnes 32] } }

theorem block_state_table_good :
    nmbmGetBlockState (nmbmSetBlockState 17 blockStBad goodWorld).2.ni 17 = blockStBad ∧
      nmbmGetBlockState (setBlockStates [(17, blockStBad), (3, 6), (17, 7)] goodWorld).2.ni 17 =
        blockStGood := by
  have htable := block_state_table goodWorld (by decide)
  have hset := htable.1 17 (by decide) blockStBad
  have hsets := htable.2.1 [(17, blockStBad), (3, 6), (17, 7)] (by decide) 17 (by decide)
  exact ⟨hset.1, hsets.trans (by decide)⟩

/-! ## Walks -/

/-- The blocks on the way of a walk.  The limit itself is not visited; a negative
limit is none. -/
def walkPath (ni : Instance) (ascending : Bool) (ba : ℕ) (limit : ℤ) : List ℕ :=
  if ascending then
    (List.range ni.blockCount).filter fun b : ℕ => ba ≤ b ∧ (limit < 0 ∨ (b : ℤ) < limit)
  else
    ((List.range (ba + 1)).filter fun b : ℕ => limit < (b : ℤ)).reverse

def walkGoal (ni : Instance) (ascending : Bool) (ba : ℕ) (count limit : ℤ) : Option ℕ :=
  ((walkPath ni ascending ba limit).filter fun b => ni.Good b)[count.toNat]?

def walkAscReads (ni : Instance) (ba : ℕ) (nblock : ℤ) : ℕ → List ℕ
  | 0 => []
  | steps + 1 =>
      let nblock :=
        if nmbmGetBlockState ni ba = blockStGood then nblock - 1 else nblock
      ba :: if nblock < 0 then [] else walkAscReads ni (ba + 1) nblock steps

def walkDescReads (ni : Instance) (ba : ℕ) (nblock : ℤ) : ℕ → List ℕ
  | 0 => []
  | steps + 1 =>
      let nblock :=
        if nmbmGetBlockState ni ba = blockStGood then nblock - 1 else nblock
      ba :: if nblock < 0 then [] else walkDescReads ni (ba - 1) nblock steps

/-- The blocks whose states `nmbm_block_walk` reads. -/
def nmbmBlockWalkReads (ni : Instance) (ascending : Bool) (ba : ℕ) (count limit : ℤ) : List ℕ :=
  let count := toInt32 (count % 2 ^ 32).toNat
  let limit := walkLimit ni (limit % 2 ^ 32).toNat
  if ascending then walkAscReads ni ba count (limit - ba) else walkDescReads ni ba count (ba - limit)

section Loops

variable {ni : Instance} {steps ba : ℕ} {nblock : ℤ}

theorem getElem?_filter_good (hn : 0 ≤ nblock) (path : List ℕ) :
    ((ba :: path).filter fun b => ni.Good b)[nblock.toNat]? =
      if (if nmbmGetBlockState ni ba = blockStGood then nblock - 1 else nblock) < 0 then some ba
      else (path.filter fun b => ni.Good b)[
        (if nmbmGetBlockState ni ba = blockStGood then nblock - 1 else nblock).toNat]? := by
  by_cases hgood : ni.Good ba
  · rw [if_pos (show nmbmGetBlockState ni ba = blockStGood from hgood),
      List.filter_cons_of_pos (by simpa using hgood)]
    cases hcount : nblock.toNat with
    | zero =>
        rw [if_pos (by omega)]
        rfl
    | succ m =>
        have hm : (nblock - 1).toNat = m := by omega
        rw [if_neg (by omega), hm, List.getElem?_cons_succ]
  · rw [if_neg (show ¬nmbmGetBlockState ni ba = blockStGood from hgood), if_neg (by omega),
      List.filter_cons_of_neg (by simpa using hgood)]

theorem walkAscLoop_eq (hn : 0 ≤ nblock) :
    walkAscLoop ni ba nblock steps =
      ((List.range' ba steps).filter fun b => ni.Good b)[nblock.toNat]? := by
  induction steps generalizing ba nblock with
  | zero => rfl
  | succ steps ih =>
      rw [walkAscLoop, List.range'_succ, getElem?_filter_good hn]
      generalize (if nmbmGetBlockState ni ba = blockStGood then nblock - 1 else nblock) = next
      split
      · rfl
      · exact ih (by omega)

theorem walkDescLoop_eq (hn : 0 ≤ nblock) (hsteps : steps ≤ ba) :
    walkDescLoop ni ba nblock steps =
      ((List.range' (ba + 1 - steps) steps).reverse.filter fun b => ni.Good b)[nblock.toNat]? := by
  induction steps generalizing ba nblock with
  | zero => rfl
  | succ steps ih =>
      have hpath : (List.range' (ba + 1 - (steps + 1)) (steps + 1)).reverse =
          ba :: (List.range' (ba - 1 + 1 - steps) steps).reverse := by
        rw [List.range'_concat, List.reverse_append, List.reverse_singleton, List.singleton_append]
        have hlast : ba + 1 - (steps + 1) + 1 * steps = ba := by omega
        have hfirst : ba + 1 - (steps + 1) = ba - 1 + 1 - steps := by omega
        rw [hlast, hfirst]
      rw [walkDescLoop, hpath, getElem?_filter_good hn]
      generalize (if nmbmGetBlockState ni ba = blockStGood then nblock - 1 else nblock) = next
      split
      · rfl
      · exact ih (by omega) (by omega)

theorem walkAscReads_lt {b : ℕ} (h : b ∈ walkAscReads ni ba nblock steps) : b < ba + steps := by
  induction steps generalizing ba nblock with
  | zero => exact absurd h (by simp [walkAscReads])
  | succ steps ih =>
      rw [walkAscReads, List.mem_cons] at h
      generalize (if nmbmGetBlockState ni ba = blockStGood then nblock - 1 else nblock) = next at h
      rcases h with rfl | h
      · omega
      · split at h
        · exact absurd h (by simp)
        · have hlt := ih h
          omega

theorem walkDescReads_le {b : ℕ} (h : b ∈ walkDescReads ni ba nblock steps) : b ≤ ba := by
  induction steps generalizing ba nblock with
  | zero => exact absurd h (by simp [walkDescReads])
  | succ steps ih =>
      rw [walkDescReads, List.mem_cons] at h
      generalize (if nmbmGetBlockState ni ba = blockStGood then nblock - 1 else nblock) = next at h
      rcases h with rfl | h
      · exact le_rfl
      · split at h
        · exact absurd h (by simp)
        · have hle := ih h
          omega

end Loops

theorem filter_range_between {lo hi n : ℕ} (h : hi ≤ n) :
    (List.range n).filter (fun b => lo ≤ b ∧ b < hi) = List.range' lo (hi - lo) := by
  induction n generalizing hi with
  | zero => simp [Nat.le_zero.mp h]
  | succ n ih =>
      rw [List.range_succ, List.filter_append]
      rcases Nat.lt_or_ge n hi with hn | hn
      · obtain rfl : hi = n + 1 := by omega
        have hbelow : (List.range n).filter (fun b => lo ≤ b ∧ b < n + 1) =
            (List.range n).filter (fun b => lo ≤ b ∧ b < n) := by
          refine List.filter_congr fun b hb => ?_
          have hlt := List.mem_range.mp hb
          simp only [decide_eq_decide]
          omega
        rw [hbelow, ih le_rfl]
        rcases Nat.lt_or_ge n lo with hlo | hlo
        · have hempty : n - lo = 0 := by omega
          have hempty' : n + 1 - lo = 0 := by omega
          have hnot : ¬lo ≤ n := by omega
          simp [hempty, hempty', hnot]
        · have hsucc : n + 1 - lo = (n - lo) + 1 := by omega
          have hlast : lo + 1 * (n - lo) = n := by omega
          rw [hsucc, List.range'_concat, hlast]
          simp [hlo]
      · have hnot : ¬n < hi := by omega
        rw [ih hn]
        simp [hnot]

theorem toInt32_of_lt {count : ℤ} (hcount : 0 ≤ count) (hlt : count < 2 ^ 31) :
    toInt32 (count % 2 ^ 32).toNat = count := by
  unfold toInt32
  have hmod : count % 2 ^ 32 = count := Int.emod_eq_of_lt hcount (by omega)
  rw [hmod]
  have hsmall : count.toNat % 2 ^ 32 = count.toNat := Nat.mod_eq_of_lt (by omega)
  rw [hsmall, if_pos (by omega)]
  omega

end Nwa50ax.Nmbm
