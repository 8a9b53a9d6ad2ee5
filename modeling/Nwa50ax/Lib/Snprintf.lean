import Nwa50ax.Lib.Store

/-!
# Bounded printing

`snprintf` character by character.  A character behind the end of the buffer is
counted but not stored, and the text is ended by a zero inside the buffer.  The
memory remembers the addresses of all stores.
-/

namespace BoundedPrint

open ByteStore

structure Memory where
  bytes : ℕ → UInt8
  stored : List ℕ

def Memory.store (memory : Memory) (addr : ℕ) (byte : UInt8) : Memory :=
  ⟨blit memory.bytes addr [byte], addr :: memory.stored⟩

/-- `ADDCH`, without the step to the next address. -/
def addch (stop : ℕ) (memory : Memory) (str : ℕ) (byte : UInt8) : Memory :=
  if str < stop then memory.store str byte else memory

def addText (stop : ℕ) : Memory → ℕ → List UInt8 → Memory
  | memory, _, [] => memory
  | memory, str, byte :: text => addText stop (addch stop memory str byte) (str + 1) text

/-- `snprintf` of an expanded text: the memory and the returned length. -/
def snprintf (memory : Memory) (buf size : ℕ) (text : List UInt8) : Memory × ℕ :=
  let stop := buf + size
  let str := buf + text.length
  let memory := addText stop memory buf text
  if 0 < size then
    let memory := addch stop memory str 0
    (if stop < str + 1 then memory.store (stop - 1) 0 else memory, text.length)
  else
    (memory, text.length)

variable {memory : Memory} {stop str buf size : ℕ} {text : List UInt8}

/-! ## Contents -/

theorem addText_bytes (stop : ℕ) (memory : Memory) (str : ℕ) (text : List UInt8) :
    (addText stop memory str text).bytes = blit memory.bytes str (text.take (stop - str)) := by
  induction text generalizing memory str with
  | nil =>
      funext i
      exact (blit_outside (by simp; omega)).symm
  | cons byte text ih =>
      rw [addText, ih]
      rcases Nat.lt_or_ge str stop with hlt | hge
      · obtain ⟨room, hroom⟩ := Nat.exists_eq_add_of_lt hlt
        rw [addch, if_pos hlt, show stop - str = room + 1 by omega,
          show stop - (str + 1) = room by omega, List.take_succ_cons]
        exact (blit_append memory.bytes str [byte] (text.take room)).symm
      · rw [addch, if_neg (by omega), show stop - str = 0 by omega,
          show stop - (str + 1) = 0 by omega]
        funext i
        rw [List.take_zero, List.take_zero, blit_outside (by simp; omega),
          blit_outside (by simp; omega)]

theorem snprintf_bytes (memory : Memory) (buf : ℕ) (text : List UInt8) (hsize : 0 < size) :
    (snprintf memory buf size text).1.bytes =
      blit memory.bytes buf (text.take (size - 1) ++ [0]) := by
  unfold snprintf
  dsimp only
  rw [if_pos hsize]
  rcases Nat.lt_or_ge text.length size with hfits | hlong
  · -- The zero stands behind the whole text.
    rw [if_neg (by omega), addch, if_pos (by omega), Memory.store, addText_bytes,
      List.take_of_length_le (by omega), List.take_of_length_le (by omega), blit_append]
  · -- The zero replaces the last character that has been stored.
    have hlast : text.take size = text.take (size - 1) ++ [text[size - 1]] := by
      rw [List.take_append_getElem, Nat.sub_add_cancel hsize]
    have hpos : buf + (text.take (size - 1)).length = buf + size - 1 := by
      rw [List.length_take]
      omega
    rw [if_pos (by omega), addch, if_neg (by omega), Memory.store, addText_bytes,
      Nat.add_sub_cancel_left, hlast, blit_append, blit_append, hpos]
    exact blit_blit rfl

theorem snprintf_length (memory : Memory) (buf size : ℕ) (text : List UInt8) :
    (snprintf memory buf size text).2 = text.length := by
  unfold snprintf
  dsimp only
  split <;> rfl

/-! ## Stores -/

theorem addch_stored {addr : ℕ} {byte : UInt8} (h : addr ∈ (addch stop memory str byte).stored) :
    addr ∈ memory.stored ∨ addr < stop := by
  unfold addch at h
  split at h
  · rcases List.mem_cons.mp h with rfl | hold
    · right
      assumption
    · left
      exact hold
  · left
    exact h

theorem addText_stored {addr : ℕ} (h : addr ∈ (addText stop memory str text).stored) :
    addr ∈ memory.stored ∨ addr < stop := by
  induction text generalizing memory str with
  | nil =>
      left
      exact h
  | cons byte text ih =>
      rcases ih h with hfirst | hlt
      · exact addch_stored hfirst
      · right
        exact hlt

theorem snprintf_stored {addr : ℕ} (hsize : 0 < size)
    (h : addr ∈ (snprintf memory buf size text).1.stored) :
    addr ∈ memory.stored ∨ addr < buf + size := by
  have hzero (hmem : addr ∈ (addch (buf + size) (addText (buf + size) memory buf text)
      (buf + text.length) 0).stored) : addr ∈ memory.stored ∨ addr < buf + size := by
    rcases addch_stored hmem with htext | hlt
    · exact addText_stored htext
    · right
      exact hlt
  unfold snprintf at h
  dsimp only at h
  rw [if_pos hsize] at h
  split at h
  · rcases List.mem_cons.mp h with rfl | hmem
    · right
      omega
    · exact hzero hmem
  · exact hzero h

end BoundedPrint
