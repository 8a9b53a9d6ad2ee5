import Mathlib.Data.BitVec
import Mathlib.Tactic

/-!
# Serial numbers

The positions of a stream are integers, but a protocol transmits them modulo
`2 ^ w`, counted from some base.  `numberOf base k` is the number of position
`k`.  Two positions that are less than half the range apart can be compared by
the sign of the difference of their numbers; the lemmas below say so once, and
nothing else has to look at the wrap-around.
-/

namespace SerialNumber

variable {w : ℕ} {base : BitVec w} {j k : ℤ}

/-- The number of stream position `k`. -/
def numberOf (base : BitVec w) (k : ℤ) : BitVec w :=
  base + BitVec.ofInt w k

@[simp] theorem numberOf_zero : numberOf base 0 = base := by
  simp [numberOf]

theorem numberOf_add (base : BitVec w) (j k : ℤ) :
    numberOf base (j + k) = numberOf base j + BitVec.ofInt w k := by
  simp [numberOf, BitVec.ofInt_add, BitVec.add_assoc]

theorem numberOf_sub_numberOf (base : BitVec w) (j k : ℤ) :
    numberOf base j - numberOf base k = BitVec.ofInt w (j - k) := by
  have hj : numberOf base j = numberOf base k + BitVec.ofInt w (j - k) := by
    rw [← numberOf_add]
    congr 1
    omega
  rw [hj, BitVec.add_comm, BitVec.add_sub_cancel]

theorem eq_numberOf (base number : BitVec w) (k : ℤ) :
    number = numberOf base (k + (number - numberOf base k).toInt) := by
  rw [numberOf_add, BitVec.ofInt_toInt, BitVec.add_comm, BitVec.sub_add_cancel]

theorem toInt_numberOf_sub (hw : 0 < w) (hlow : -2 ^ (w - 1) ≤ j - k)
    (hhigh : j - k < 2 ^ (w - 1)) :
    (numberOf base j - numberOf base k).toInt = j - k := by
  rw [numberOf_sub_numberOf, BitVec.toInt_ofInt_eq_self hw hlow hhigh]

theorem toNat_numberOf_sub (base : BitVec w) (hlow : k ≤ j) (hhigh : j - k < 2 ^ w) :
    ((numberOf base j - numberOf base k).toNat : ℤ) = j - k := by
  have hcast : ((2 ^ w : ℕ) : ℤ) = 2 ^ w := by push_cast; rfl
  rw [numberOf_sub_numberOf, BitVec.toNat_ofInt, hcast,
    Int.emod_eq_of_lt (by omega) hhigh, Int.toNat_of_nonneg (by omega)]

theorem numberOf_inj (hlow : k ≤ j) (hhigh : j - k < 2 ^ w)
    (heq : numberOf base j = numberOf base k) : j = k := by
  have hdist := toNat_numberOf_sub base hlow hhigh
  rw [heq, BitVec.sub_self, BitVec.toNat_zero] at hdist
  omega

theorem exists_between (hw : 0 < w) {number : BitVec w} {a b : ℕ} (hab : a ≤ b)
    (hlow : 0 ≤ (number - numberOf base a).toInt) (hhigh : (number - numberOf base b).toInt ≤ 0) :
    ∃ p : ℕ, number = numberOf base p ∧ a ≤ p ∧ p ≤ b := by
  obtain ⟨d, hd⟩ := Int.eq_ofNat_of_zero_le hlow
  have hnumber : number = numberOf base ((a + d : ℕ) : ℤ) := by
    have heq := eq_numberOf base number a
    rw [hd] at heq
    push_cast
    exact heq
  have hlt : (d : ℤ) < 2 ^ (w - 1) := by
    rw [← hd]
    exact BitVec.toInt_lt
  refine ⟨a + d, hnumber, Nat.le_add_right _ _, ?_⟩
  by_contra hbeyond
  have hpow : (0 : ℤ) ≤ 2 ^ (w - 1) := by positivity
  rw [hnumber, toInt_numberOf_sub hw (by omega) (by push_cast; omega)] at hhigh
  omega

end SerialNumber
