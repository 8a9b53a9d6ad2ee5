import Nwa50ax.Lib.Bytes

/-!
# Packing by a format

The little-endian `struct.pack`: a format is a list of items with counts, which
take their values one after the other from a list of integers and byte strings.
A value of the wrong kind or out of range, and a wrong number of values, is an
error.
-/

namespace StructPack

open ByteBuffer

inductive Code
  /-- `x`, takes no value. -/
  | pad
  /-- `s`, takes one string for all its bytes. -/
  | string
  /-- `B`. -/
  | byte
  /-- `H`. -/
  | half
deriving DecidableEq

structure Item where
  count : ℕ
  code : Code
deriving DecidableEq

inductive Value
  | int (n : ℤ)
  | bytes (text : List UInt8)
deriving DecidableEq

def Item.size (item : Item) : ℕ :=
  match item.code with
  | .half => 2 * item.count
  | _ => item.count

def calcsize (format : List Item) : ℕ :=
  (format.map Item.size).sum

/-- `count` integers of `width` bytes; returns the other values. -/
def packInts (width : ℕ) : ℕ → List Value → Option (List UInt8 × List Value)
  | 0, values => some ([], values)
  | count + 1, .int n :: values =>
      if 0 ≤ n ∧ n < 256 ^ width then
        (packInts width count values).map fun (bytes, rest) => (toLE width n.toNat ++ bytes, rest)
      else none
  | _ + 1, _ => none

def fitString (width : ℕ) (text : List UInt8) : List UInt8 :=
  text.take width ++ List.replicate (width - text.length) 0

def packItem (item : Item) (values : List Value) : Option (List UInt8 × List Value) :=
  match item.code with
  | .pad => some (List.replicate item.count 0, values)
  | .byte => packInts 1 item.count values
  | .half => packInts 2 item.count values
  | .string =>
      match values with
      | .bytes text :: values => some (fitString item.count text, values)
      | _ => none

def pack : List Item → List Value → Option (List UInt8)
  | [], [] => some []
  | [], _ :: _ => none
  | item :: format, values => do
      let (bytes, rest) ← packItem item values
      let bytes' ← pack format rest
      return bytes ++ bytes'

/-! ## What an item makes of its values -/

def Packs (item : Item) (values : List Value) (bytes : List UInt8) : Prop :=
  ∀ rest, packItem item (values ++ rest) = some (bytes, rest)

def PacksAll : List Item → List (List Value) → List (List UInt8) → Prop
  | [], [], [] => True
  | item :: format, values :: groups, bytes :: pieces =>
      Packs item values bytes ∧ PacksAll format groups pieces
  | _, _, _ => False

theorem PacksAll.pack_eq {format : List Item} {groups : List (List Value)}
    {pieces : List (List UInt8)} (h : PacksAll format groups pieces) :
    pack format groups.flatten = some pieces.flatten := by
  induction format generalizing groups pieces with
  | nil =>
      cases groups with
      | cons values groups => cases h
      | nil =>
          cases pieces with
          | cons bytes pieces => cases h
          | nil => rfl
  | cons item format ih =>
      cases groups with
      | nil => cases h
      | cons values groups =>
          cases pieces with
          | nil => cases h
          | cons bytes pieces =>
              rw [List.flatten_cons, List.flatten_cons, pack, h.1]
              simp [ih h.2]

theorem packInts_ints (width : ℕ) {ns : List ℤ} (h : ∀ n ∈ ns, 0 ≤ n ∧ n < 256 ^ width)
    (rest : List Value) :
    packInts width ns.length (ns.map .int ++ rest) =
      some (ns.flatMap fun n => toLE width n.toNat, rest) := by
  induction ns with
  | nil => rfl
  | cons n ns ih =>
      obtain ⟨hn, hns⟩ := List.forall_mem_cons.mp h
      rw [List.length_cons, List.map_cons, List.cons_append, packInts, if_pos hn, ih hns]
      rfl

theorem packs_pad (count : ℕ) : Packs ⟨count, .pad⟩ [] (List.replicate count 0) :=
  fun _ => rfl

theorem packs_string (count : ℕ) (text : List UInt8) :
    Packs ⟨count, .string⟩ [.bytes text] (fitString count text) :=
  fun _ => rfl

theorem packs_bytes {count : ℕ} {ns : List ℤ} (hlength : ns.length = count)
    (h : ∀ n ∈ ns, 0 ≤ n ∧ n < 256) :
    Packs ⟨count, .byte⟩ (ns.map .int) (ns.map fun n => UInt8.ofNat n.toNat) := by
  intro rest
  have hpack := packInts_ints 1 (by simpa using h) rest
  rw [hlength] at hpack
  have hsingle : (ns.flatMap fun n => toLE 1 n.toNat) = ns.map fun n => UInt8.ofNat n.toNat :=
    (List.map_eq_flatMap ..).symm
  rw [← hsingle]
  exact hpack

theorem packs_half {n : ℤ} (hn : 0 ≤ n) (hlt : n < 2 ^ 16) :
    Packs ⟨1, .half⟩ [.int n] (toLE 2 n.toNat) := by
  intro rest
  have hpack := packInts_ints 2 (List.forall_mem_singleton.mpr ⟨hn, hlt⟩) rest
  rw [List.flatMap_singleton] at hpack
  exact hpack

theorem length_fitString (width : ℕ) (text : List UInt8) :
    (fitString width text).length = width := by
  simp [fitString]
  omega

end StructPack
