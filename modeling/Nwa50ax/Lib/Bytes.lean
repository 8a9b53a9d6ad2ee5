import Mathlib.Data.List.TakeDrop
import Mathlib.Tactic

/-!
# Byte buffers and machine words

Memory images are lists of bytes.  This module has the operations a C program
performs on them: overwriting a range, reading a range, and storing or loading
a machine word with its least or its most significant byte first.
-/

namespace ByteBuffer

def overwrite (buf : List UInt8) (off : ℕ) (bytes : List UInt8) : List UInt8 :=
  buf.take off ++ bytes ++ buf.drop (off + bytes.length)

def slice (buf : List UInt8) (off len : ℕ) : List UInt8 :=
  (buf.drop off).take len

/-- The `n` low-order bytes of a word, least significant byte first. -/
def toLE : ℕ → ℕ → List UInt8
  | 0, _ => []
  | n + 1, word => UInt8.ofNat word :: toLE n (word / 256)

def fromLE : List UInt8 → ℕ
  | [] => 0
  | byte :: bytes => byte.toNat + 256 * fromLE bytes

/-- The `n` low-order bytes of a word, most significant byte first. -/
def toBE (n word : ℕ) : List UInt8 :=
  (toLE n word).reverse

def fromBE (bytes : List UInt8) : ℕ :=
  fromLE bytes.reverse

def word32 (buf : List UInt8) (off : ℕ) : ℕ :=
  fromLE (slice buf off 4)

def toWords32 : ℕ → List UInt8 → List ℕ
  | 0, _ => []
  | n + 1, bytes => fromLE (bytes.take 4) :: toWords32 n (bytes.drop 4)

/-! ## Ranges -/

@[simp] theorem length_slice (buf : List UInt8) (off len : ℕ) :
    (slice buf off len).length = min len (buf.length - off) := by
  simp [slice]

theorem take_slice (buf : List UInt8) (off len room : ℕ) :
    (slice buf off len).take room = slice buf off (min room len) := by
  rw [slice, slice, List.take_take]

theorem drop_slice (buf : List UInt8) (off len room : ℕ) :
    (slice buf off len).drop room = slice buf (off + min room len) (len - min room len) := by
  unfold slice
  rw [List.drop_take, List.drop_drop]
  rcases Nat.le_total room len with h | h
  · rw [Nat.min_eq_left h]
  · rw [Nat.min_eq_right h, Nat.sub_self, Nat.sub_eq_zero_of_le h, List.take_zero, List.take_zero]

theorem slice_add (buf : List UInt8) (off m n : ℕ) :
    slice buf off (m + n) = slice buf off m ++ slice buf (off + m) n := by
  unfold slice
  rw [List.take_add, List.drop_drop]

/-! ## Overwriting -/

theorem slice_append_left {buf rest : List UInt8} {off len : ℕ} (h : off + len ≤ buf.length) :
    slice (buf ++ rest) off len = slice buf off len := by
  unfold slice
  rw [List.drop_append_of_le_length (by omega),
    List.take_append_of_le_length (by rw [List.length_drop]; omega)]

theorem length_overwrite {buf bytes : List UInt8} {off : ℕ} (h : off + bytes.length ≤ buf.length) :
    (overwrite buf off bytes).length = buf.length := by
  simp [overwrite]
  omega

theorem overwrite_all {buf bytes : List UInt8} (h : buf.length = bytes.length) :
    overwrite buf 0 bytes = bytes := by
  rw [overwrite, List.take_zero, List.nil_append, Nat.zero_add, ← h, List.drop_length,
    List.append_nil]

theorem slice_overwrite {buf : List UInt8} (bytes : List UInt8) {off : ℕ} (h : off ≤ buf.length) :
    slice (overwrite buf off bytes) off bytes.length = bytes := by
  unfold slice overwrite
  rw [List.append_assoc, List.drop_left' (by simp [h]), List.take_left' rfl]

theorem slice_overwrite_before {buf bytes : List UInt8} {off pos len : ℕ} (h : off ≤ buf.length)
    (hbefore : pos + len ≤ off) : slice (overwrite buf off bytes) pos len = slice buf pos len := by
  unfold slice overwrite
  rw [List.take_drop, List.take_drop, List.append_assoc,
    List.take_append_of_le_length (by simp; omega), List.take_take, Nat.min_eq_left hbefore]

theorem slice_overwrite_behind {buf bytes : List UInt8} {off pos len : ℕ} (h : off ≤ buf.length)
    (hbehind : off + bytes.length ≤ pos) :
    slice (overwrite buf off bytes) pos len = slice buf pos len := by
  unfold slice overwrite
  rw [List.drop_append, List.drop_eq_nil_of_le (by simp [h]; omega), List.nil_append,
    List.drop_drop]
  congr 2
  simp [h]
  omega

theorem overwrite_overwrite {buf bytes bytes' : List UInt8} {off : ℕ} (h : off ≤ buf.length)
    (hlen : bytes.length = bytes'.length) :
    overwrite (overwrite buf off bytes) off bytes' = overwrite buf off bytes' := by
  have htake : (overwrite buf off bytes).take off = buf.take off := by
    unfold overwrite
    rw [List.append_assoc, List.take_left' (by simp [h])]
  have hdrop : (overwrite buf off bytes).drop (off + bytes.length) =
      buf.drop (off + bytes.length) := by
    unfold overwrite
    rw [List.drop_left' (by simp [h])]
  rw [overwrite, htake, ← hlen, hdrop, overwrite, ← hlen]

theorem overwrite_slice {buf : List UInt8} {off len : ℕ} (h : off + len ≤ buf.length) :
    overwrite buf off (slice buf off len) = buf := by
  have hlen : (slice buf off len).length = len := by
    rw [length_slice]
    omega
  rw [overwrite, hlen, slice, List.append_assoc, ← List.drop_drop, List.take_append_drop,
    List.take_append_drop]

theorem slice_slice {buf : List UInt8} {off len pos count : ℕ} (h : pos + count ≤ len) :
    slice (slice buf off len) pos count = slice buf (off + pos) count := by
  unfold slice
  rw [List.drop_take, List.take_take, List.drop_drop, Nat.min_eq_left (by omega)]

/-! ## Words -/

@[simp] theorem length_toLE (n word : ℕ) : (toLE n word).length = n := by
  induction n generalizing word with
  | zero => rfl
  | succ n ih => simp [toLE, ih]

theorem fromLE_toLE (n word : ℕ) : fromLE (toLE n word) = word % 256 ^ n := by
  induction n generalizing word with
  | zero => simp [toLE, fromLE, Nat.mod_one]
  | succ n ih =>
      have hbyte : (UInt8.ofNat word).toNat = word % 256 := UInt8.toNat_ofNat'
      rw [toLE, fromLE, ih, hbyte, pow_succ', Nat.mod_mul]

theorem fromLE_toLE_of_lt {n word : ℕ} (h : word < 256 ^ n) : fromLE (toLE n word) = word := by
  rw [fromLE_toLE, Nat.mod_eq_of_lt h]

theorem fromLE_lt (bytes : List UInt8) : fromLE bytes < 256 ^ bytes.length := by
  induction bytes with
  | nil => simp [fromLE]
  | cons byte bytes ih =>
      have hbyte := byte.toNat_lt
      rw [fromLE, List.length_cons, pow_succ]
      omega

@[simp] theorem length_toBE (n word : ℕ) : (toBE n word).length = n := by
  rw [toBE, List.length_reverse, length_toLE]

theorem fromBE_toBE_of_lt {n word : ℕ} (h : word < 256 ^ n) : fromBE (toBE n word) = word := by
  rw [fromBE, toBE, List.reverse_reverse, fromLE_toLE_of_lt h]

theorem word32_lt (buf : List UInt8) (off : ℕ) : word32 buf off < 2 ^ 32 := by
  have hlen : (slice buf off 4).length ≤ 4 := List.length_take_le _ _
  calc word32 buf off < 256 ^ (slice buf off 4).length := fromLE_lt _
    _ ≤ 256 ^ 4 := Nat.pow_le_pow_right (by decide) hlen
    _ = 2 ^ 32 := by decide

theorem word32_of_slice {buf : List UInt8} {off word : ℕ} (h : slice buf off 4 = toLE 4 word)
    (hword : word < 2 ^ 32) : word32 buf off = word := by
  rw [word32, h, fromLE_toLE_of_lt hword]

theorem toWords32_slice (n : ℕ) (buf : List UInt8) (off : ℕ) :
    toWords32 n (buf.drop off) = (List.range n).map fun i => word32 buf (off + 4 * i) := by
  induction n generalizing off with
  | zero => rfl
  | succ n ih =>
      rw [toWords32, List.drop_drop, ih, List.range_succ_eq_map, List.map_cons, List.map_map]
      congr 1
      apply List.map_congr_left
      intro i _
      simp only [Function.comp_apply, Nat.succ_eq_add_one]
      congr 1
      omega

theorem slice_flatMap_toLE {α : Type} (f : α → ℕ) (entries : List α) {i : ℕ}
    (hi : i < entries.length) :
    slice (entries.flatMap fun entry => toLE 4 (f entry)) (4 * i) 4 =
      toLE 4 (f (entries.get ⟨i, hi⟩)) := by
  induction entries generalizing i with
  | nil => exact absurd hi (Nat.not_lt_zero i)
  | cons entry entries ih =>
      rw [List.flatMap_cons]
      cases i with
      | zero => simp [slice]
      | succ i =>
          have hrest := ih (Nat.lt_of_succ_lt_succ hi)
          unfold slice at hrest ⊢
          rw [List.drop_append, List.drop_eq_nil_of_le (by rw [length_toLE]; omega),
            List.nil_append, length_toLE, show 4 * (i + 1) - 4 = 4 * i by omega, hrest]
          rfl

@[simp] theorem length_flatMap_toLE {α : Type} (f : α → ℕ) (entries : List α) :
    (entries.flatMap fun entry => toLE 4 (f entry)).length = 4 * entries.length := by
  induction entries with
  | nil => rfl
  | cons entry entries ih =>
      rw [List.flatMap_cons, List.length_append, ih, length_toLE, List.length_cons]
      omega

theorem words_of_table {α : Type} (f : α → ℕ) {entries : List α} {buf : List UInt8} {off : ℕ}
    (htable : slice buf off (4 * entries.length) =
      entries.flatMap fun entry => toLE 4 (f entry))
    (hword : ∀ entry ∈ entries, f entry < 2 ^ 32) {i : ℕ} (hi : i < entries.length) :
    word32 buf (off + 4 * i) = f (entries.get ⟨i, hi⟩) := by
  refine word32_of_slice ?_ (hword _ (List.get_mem _ _))
  rw [← slice_flatMap_toLE f entries hi, ← htable, slice_slice (by omega)]

end ByteBuffer
