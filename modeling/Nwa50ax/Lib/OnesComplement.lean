import Nwa50ax.Lib.Bytes
import Mathlib.Data.Nat.ModEq

/-!
# One's complement sums

The checksum of the internet protocols adds the 16-bit words of its data and
folds the carries back into the low word.  Folding keeps the value modulo
65535, and the only sum that it takes to zero is zero; so the complement of the
folded sum vanishes exactly for the non-zero multiples of 65535.

Words are stored with their low byte first.  A last byte without a partner is
a word by itself.
-/

namespace OnesComplement

open ByteBuffer

/-! ## The words of a byte string -/

def words : List UInt8 → List ℕ
  | [] => []
  | [byte] => [byte.toNat]
  | low :: high :: bytes => (low.toNat + 256 * high.toNat) :: words bytes

def wordAt (bytes : List UInt8) (i : ℕ) : ℕ :=
  fromLE (slice bytes (2 * i) 2)

theorem wordAt_zero (low high : UInt8) (bytes : List UInt8) :
    wordAt (low :: high :: bytes) 0 = low.toNat + 256 * high.toNat := by
  simp [wordAt, slice, fromLE]

theorem wordAt_succ (low high : UInt8) (bytes : List UInt8) (i : ℕ) :
    wordAt (low :: high :: bytes) (i + 1) = wordAt bytes i := by
  unfold wordAt slice
  rw [show 2 * (i + 1) = 2 * i + 2 by omega]
  rfl

theorem getElem?_words (bytes : List UInt8) (i : ℕ) :
    (words bytes)[i]? = if 2 * i < bytes.length then some (wordAt bytes i) else none := by
  induction bytes using words.induct generalizing i with
  | case1 => simp [words]
  | case2 byte =>
      cases i with
      | zero => simp [words, wordAt, slice, fromLE]
      | succ i => simp [words]
  | case3 low high bytes ih =>
      cases i with
      | zero => simp [words, wordAt_zero]
      | succ i =>
          rw [words, List.getElem?_cons_succ, ih, wordAt_succ, List.length_cons, List.length_cons]
          exact if_congr (by omega) rfl rfl

theorem length_words (bytes : List UInt8) : (words bytes).length = (bytes.length + 1) / 2 := by
  induction bytes using words.induct with
  | case1 => rfl
  | case2 byte => simp [words]
  | case3 low high bytes ih =>
      rw [words, List.length_cons, ih, List.length_cons, List.length_cons]
      omega

theorem words_lt {bytes : List UInt8} {word : ℕ} (h : word ∈ words bytes) : word < 65536 := by
  induction bytes using words.induct with
  | case1 => simp [words] at h
  | case2 byte =>
      have hbyte := byte.toNat_lt
      rw [words, List.mem_singleton] at h
      omega
  | case3 low high bytes ih =>
      have hlow := low.toNat_lt
      have hhigh := high.toNat_lt
      rw [words, List.mem_cons] at h
      rcases h with h | h
      · omega
      · exact ih h

theorem words_append {bytes : List UInt8} (h : 2 ∣ bytes.length) (bytes' : List UInt8) :
    words (bytes ++ bytes') = words bytes ++ words bytes' := by
  induction bytes using words.induct with
  | case1 => rfl
  | case2 byte => simp at h
  | case3 low high bytes ih =>
      have hrest : 2 ∣ bytes.length := by
        simp only [List.length_cons] at h
        omega
      rw [List.cons_append, List.cons_append, words, ih hrest, words, List.cons_append]

theorem sum_words_le (bytes : List UInt8) :
    (words bytes).sum ≤ 65535 * ((bytes.length + 1) / 2) := by
  have hle : ∀ word ∈ words bytes, word ≤ 65535 := fun word hword => by
    have hlt := words_lt hword
    omega
  calc (words bytes).sum ≤ (words bytes).length • 65535 := List.sum_le_card_nsmul _ _ hle
    _ = 65535 * ((bytes.length + 1) / 2) := by
        rw [length_words, smul_eq_mul, Nat.mul_comm]

structure DiffersAt (i : ℕ) (bytes bytes' : List UInt8) : Prop where
  length : bytes'.length = bytes.length
  elsewhere : ∀ j, j ≠ i → wordAt bytes' j = wordAt bytes j

theorem DiffersAt.words_eq {i : ℕ} {bytes bytes' : List UInt8} (h : DiffersAt i bytes bytes') :
    words bytes' = (words bytes).set i (wordAt bytes' i) := by
  apply List.ext_getElem?
  intro j
  rw [List.getElem?_set, getElem?_words, getElem?_words, h.length, length_words]
  by_cases hij : i = j
  · rw [if_pos hij, hij]
    exact if_congr (by omega) rfl rfl
  · rw [if_neg hij, h.elsewhere j (Ne.symm hij)]

theorem sum_set {l : List ℕ} {i : ℕ} (hi : i < l.length) (word : ℕ) :
    (l.set i word).sum + l[i] = l.sum + word := by
  rw [List.set_eq_take_append_cons_drop, if_pos hi, List.sum_append, List.sum_cons]
  have hsplit : l.sum = (l.take i).sum + (l[i] + (l.drop (i + 1)).sum) := by
    rw [← List.sum_cons, List.getElem_cons_drop, List.sum_take_add_sum_drop]
  omega

theorem DiffersAt.sum_words {i : ℕ} {bytes bytes' : List UInt8} (h : DiffersAt i bytes bytes')
    (hi : 2 * i < bytes.length) :
    (words bytes').sum + wordAt bytes i = (words bytes).sum + wordAt bytes' i := by
  have hlt : i < (words bytes).length := by
    rw [length_words]
    omega
  have hget : (words bytes)[i] = wordAt bytes i := by
    have hsome := getElem?_words bytes i
    rw [if_pos hi, List.getElem?_eq_getElem hlt, Option.some_inj] at hsome
    exact hsome
  rw [h.words_eq, ← hget]
  exact sum_set hlt _

/-! ## Folding the carries -/

/-- Two rounds; the carry of the second one is dropped with the high word. -/
def fold (sum : ℕ) : ℕ :=
  let sum := sum / 65536 + sum % 65536
  (sum + sum / 65536) % 65536

theorem fold_lt (sum : ℕ) : fold sum < 65536 :=
  Nat.mod_lt _ (by decide)

theorem fold_cases {sum : ℕ} (h : sum < 2 ^ 31) :
    fold sum = sum / 65536 + sum % 65536 ∨
      65536 ≤ sum / 65536 + sum % 65536 ∧ fold sum + 65535 = sum / 65536 + sum % 65536 := by
  have hsmall : sum / 65536 + sum % 65536 < 32768 + 65536 := by omega
  unfold fold
  dsimp only
  generalize sum / 65536 + sum % 65536 = once at *
  by_cases hcarry : once < 65536
  · left
    rw [Nat.div_eq_of_lt hcarry, Nat.add_zero, Nat.mod_eq_of_lt hcarry]
  · right
    have hone : once / 65536 = 1 := by omega
    rw [hone]
    omega

theorem fold_modEq {sum : ℕ} (h : sum < 2 ^ 31) : fold sum ≡ sum [MOD 65535] := by
  have hsplit : sum = 65535 * (sum / 65536) + (sum / 65536 + sum % 65536) := by omega
  have honce : sum / 65536 + sum % 65536 ≡ sum [MOD 65535] := by
    conv_rhs => rw [hsplit]
    simp [Nat.ModEq]
  rcases fold_cases h with hfold | ⟨-, hfold⟩
  · rw [hfold]
    exact honce
  · refine Nat.ModEq.trans ?_ honce
    rw [← hfold]
    simp [Nat.ModEq]

theorem fold_pos {sum : ℕ} (h : sum < 2 ^ 31) (hpos : 0 < sum) : 0 < fold sum := by
  rcases fold_cases h with hfold | ⟨hcarry, hfold⟩
  · omega
  · omega

theorem fold_eq_iff {sum : ℕ} (h : sum < 2 ^ 31) (hpos : 0 < sum) :
    fold sum = 65535 ↔ 65535 ∣ sum := by
  have hmod := fold_modEq h
  have hlt := fold_lt sum
  have hfold := fold_pos h hpos
  unfold Nat.ModEq at hmod
  omega

theorem dvd_sum_add_complement {sum : ℕ} (h : sum < 2 ^ 31) : 65535 ∣ sum + (65535 - fold sum) := by
  have hmod := fold_modEq h
  have hlt := fold_lt sum
  unfold Nat.ModEq at hmod
  omega

end OnesComplement
