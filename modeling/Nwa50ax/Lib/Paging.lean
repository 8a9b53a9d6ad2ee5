import Mathlib.Data.List.TakeDrop
import Mathlib.Tactic

/-!
# Rows of pages

A byte string is laid over a row of pages of equal size, starting at some
position of the first page.  Positions that it does not reach hold a filler.
-/

namespace Paging

variable {α : Type}

/-- What position `pos` of the row holds when `bytes` start at `start`. -/
def entry (filler : α) (start : ℕ) (bytes : List α) (pos : ℕ) : α :=
  if start ≤ pos then bytes.getD (pos - start) filler else filler

def page (filler : α) (size start : ℕ) (bytes : List α) (k : ℕ) : List α :=
  (List.range size).map fun i => entry filler start bytes (k * size + i)

def pageCount (size start len : ℕ) : ℕ :=
  if len = 0 then 0 else (start + len + size - 1) / size

section Entry

variable {filler : α} {start pos : ℕ} {bytes : List α}

theorem entry_inside (filler : α) (start : ℕ) (hpos : pos < bytes.length) :
    entry filler start bytes (start + pos) = bytes.get ⟨pos, hpos⟩ := by
  simp [entry, hpos]

theorem entry_outside (h : pos < start ∨ start + bytes.length ≤ pos) :
    entry filler start bytes pos = filler := by
  unfold entry
  split
  · rw [List.getD_eq_getElem?_getD, List.getElem?_eq_none (by omega)]
    rfl
  · rfl

theorem entry_add (size : ℕ) (hstart : start ≤ size) :
    entry filler start bytes (size + pos) =
      entry filler 0 (bytes.drop (size - start)) pos := by
  have hsplit : size + pos - start = size - start + pos := by omega
  simp [entry, hsplit, show start ≤ size + pos by omega]

end Entry

section Page

variable {filler : α} {size start len : ℕ} {bytes : List α}

@[simp] theorem length_page (k : ℕ) : (page filler size start bytes k).length = size := by
  simp [page]

theorem getElem?_page {k i : ℕ} (hi : i < size) :
    (page filler size start bytes k)[i]? = some (entry filler start bytes (k * size + i)) := by
  simp [page, hi]

theorem page_zero (hstart : start ≤ size) :
    page filler size start bytes 0 =
      List.replicate start filler ++ bytes.take (size - start) ++
        List.replicate (size - start - bytes.length) filler := by
  apply List.ext_getElem?
  intro i
  rcases Nat.lt_or_ge i size with hi | hi
  · rw [getElem?_page hi, Nat.zero_mul, Nat.zero_add]
    rcases Nat.lt_or_ge i start with hbefore | hfrom
    · rw [entry_outside (.inl hbefore), List.append_assoc,
        List.getElem?_append_left (by simpa using hbefore)]
      simp [hbefore]
    rcases Nat.lt_or_ge i (start + bytes.length) with hinside | hbehind
    · have hpos : i - start < bytes.length := by omega
      have hsum : start + (i - start) = i := by omega
      have hentry := entry_inside filler start hpos
      rw [hsum] at hentry
      rw [hentry, List.append_assoc, List.getElem?_append_right (by simpa using hfrom),
        List.getElem?_append_left (by simp; omega)]
      simp [hpos, show i - start < size - start by omega]
    · rw [entry_outside (.inr hbehind), List.getElem?_append_right (by simp; omega)]
      simp only [List.length_append, List.length_replicate, List.length_take,
        List.getElem?_replicate]
      rw [if_pos (by omega)]
  · rw [List.getElem?_eq_none (by simpa using hi), List.getElem?_eq_none]
    simp only [List.length_append, List.length_replicate, List.length_take]
    omega

theorem page_succ (hstart : start ≤ size) (k : ℕ) :
    page filler size start bytes (k + 1) =
      page filler size 0 (bytes.drop (size - start)) k := by
  apply List.map_congr_left
  intro i _
  rw [Nat.succ_mul, show k * size + size + i = size + (k * size + i) by omega,
    entry_add size hstart]

@[simp] theorem pageCount_zero : pageCount size start 0 = 0 := if_pos rfl

theorem pageCount_succ (hlen : 0 < len) (hstart : start < size) :
    pageCount size start len = pageCount size 0 (len - (size - start)) + 1 := by
  unfold pageCount
  rw [if_neg hlen.ne']
  split
  · have hquot : (start + len + size - 1) / size = 1 := by
      apply Nat.div_eq_of_lt_le <;> omega
    rw [hquot]
  · have hsplit : start + len + size - 1 = 0 + (len - (size - start)) + size - 1 + size := by omega
    rw [hsplit, Nat.add_div_right _ (by omega)]

theorem pageCount_bounds (hlen : 0 < len) (hsize : 0 < size) :
    start + len ≤ pageCount size start len * size ∧
      pageCount size start len * size < start + len + size := by
  unfold pageCount
  rw [if_neg hlen.ne']
  have hmod := Nat.div_add_mod (start + len + size - 1) size
  have hlt := Nat.mod_lt (start + len + size - 1) hsize
  rw [Nat.mul_comm] at hmod
  omega

end Page

end Paging
