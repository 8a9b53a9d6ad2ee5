import Nwa50ax.Lib.Bytes

/-!
# Packed structures

A packed structure has its fields one behind the other.  Its memory can be made
from the values of all fields, and fields of it can be read and written.
-/

namespace PackedStruct

open ByteBuffer

structure Layout (F : Type) where
  order : List F
  width : F → ℕ
  nodup : order.Nodup
  complete : ∀ f, f ∈ order

variable {F : Type} [DecidableEq F] (layout : Layout F)

namespace Layout

def sizeof : ℕ :=
  (layout.order.map layout.width).sum

def offset (f : F) : ℕ :=
  ((layout.order.takeWhile (· ≠ f)).map layout.width).sum

def get (bytes : List UInt8) (f : F) : List UInt8 :=
  slice bytes (layout.offset f) (layout.width f)

def set (bytes : List UInt8) (f : F) (value : List UInt8) : List UInt8 :=
  overwrite bytes (layout.offset f) value

def pack (value : F → List UInt8) : List UInt8 :=
  layout.order.flatMap value

variable {layout} {f g : F} {before behind : List F} {value : F → List UInt8}

/-! ## Places -/

theorem offset_of_split (h : layout.order = before ++ f :: behind) :
    layout.offset f = (before.map layout.width).sum := by
  have hnodup := layout.nodup
  rw [h, List.nodup_append] at hnodup
  have hbefore : ∀ g ∈ before, decide (g ≠ f) = true := by
    intro g hg
    exact decide_eq_true (hnodup.2.2 g hg f List.mem_cons_self)
  rw [offset, h, List.takeWhile_append_of_pos hbefore, List.takeWhile_cons_of_neg (by simp),
    List.append_nil]

theorem offset_add_width_le (f : F) : layout.offset f + layout.width f ≤ layout.sizeof := by
  obtain ⟨before, behind, h⟩ := List.append_of_mem (layout.complete f)
  rw [offset_of_split h, sizeof, h, List.map_append, List.sum_append, List.map_cons, List.sum_cons]
  omega

private theorem offset_le_of_behind (h : layout.order = before ++ f :: behind) (hg : g ∈ behind) :
    layout.offset f + layout.width f ≤ layout.offset g := by
  obtain ⟨between, rest, hrest⟩ := List.append_of_mem hg
  have hsplit : layout.order = (before ++ f :: between) ++ g :: rest := by
    rw [h, hrest, List.append_assoc, List.cons_append]
  rw [offset_of_split h, offset_of_split hsplit, List.map_append, List.sum_append, List.map_cons,
    List.sum_cons]
  omega

theorem offset_disjoint (h : f ≠ g) :
    layout.offset f + layout.width f ≤ layout.offset g ∨
      layout.offset g + layout.width g ≤ layout.offset f := by
  obtain ⟨before, behind, hf⟩ := List.append_of_mem (layout.complete f)
  have hg := layout.complete g
  rw [hf, List.mem_append, List.mem_cons] at hg
  rcases hg with hg | rfl | hg
  · right
    obtain ⟨before', between, hbefore⟩ := List.append_of_mem hg
    have hsplit : layout.order = before' ++ g :: (between ++ f :: behind) := by
      rw [hf, hbefore, List.append_assoc, List.cons_append]
    exact offset_le_of_behind hsplit (by simp)
  · exact absurd rfl h
  · left
    exact offset_le_of_behind hf hg

/-! ## Reading and writing -/

theorem get_pack (h : ∀ f, (value f).length = layout.width f) (f : F) :
    layout.get (layout.pack value) f = value f := by
  obtain ⟨before, behind, hsplit⟩ := List.append_of_mem (layout.complete f)
  have hlength : (before.flatMap value).length = layout.offset f := by
    rw [offset_of_split hsplit, List.length_flatMap]
    simp only [h]
  rw [get, pack, hsplit, List.flatMap_append, List.flatMap_cons, slice, List.drop_left' hlength,
    List.take_left' (h f)]

omit [DecidableEq F] in
theorem length_pack (h : ∀ f, (value f).length = layout.width f) :
    (layout.pack value).length = layout.sizeof := by
  rw [pack, sizeof, List.length_flatMap]
  simp only [h]

variable {bytes field : List UInt8}

theorem length_set (hbytes : bytes.length = layout.sizeof) (hfield : field.length = layout.width f) :
    (layout.set bytes f field).length = layout.sizeof := by
  have hroom := layout.offset_add_width_le f
  rw [set, length_overwrite (by omega), hbytes]

theorem get_set_self (hbytes : bytes.length = layout.sizeof)
    (hfield : field.length = layout.width f) : layout.get (layout.set bytes f field) f = field := by
  have hroom := layout.offset_add_width_le f
  rw [get, set, ← hfield, slice_overwrite field (by omega)]

theorem get_set_of_ne (hbytes : bytes.length = layout.sizeof)
    (hfield : field.length = layout.width g) (h : f ≠ g) :
    layout.get (layout.set bytes g field) f = layout.get bytes f := by
  have hroom := layout.offset_add_width_le g
  rcases layout.offset_disjoint h with hbefore | hbehind
  · exact slice_overwrite_before (by omega) hbefore
  · exact slice_overwrite_behind (by omega) (by omega)

end Layout

end PackedStruct
