import Nwa50ax.Nmbm.Attach

/-!
# Bounds of an accepted table

`nmbm_check_info_table_header` compares differences of 32-bit offsets.  When
the offsets are in order the differences are those of natural numbers, and
everything that is read from the table lies inside `info_table_cache`.
-/

namespace Nwa50ax.Nmbm

open ByteBuffer

theorem subU32_of_le {a b : ℕ} (hle : b ≤ a) (hlt : a < 2 ^ 32) : subU32 a b = a - b := by
  unfold subU32
  omega

/-- The ranges of `info_table_cache`, as offset and length, that are read for a
table in the blocks from `startBa` up to `endBa`: by `nmbm_check_info_table`
one entry for each logic block and one unit of the state table for each block
of the table, and by `nmbm_try_load_info_table` both tables as a whole. -/
def tableAccesses (ni : Instance) (data : List UInt8) (startBa endBa : ℕ) : List (ℕ × ℕ) :=
  let hdr := InfoTableHeader.ofBytes data
  (List.range ni.dataBlockCount).map (fun lb => (hdr.mappingTableOff + 4 * lb, 4)) ++
    (List.range' startBa (endBa - startBa)).map
      (fun ba => (hdr.stateTableOff + 4 * (ba / 16), 4)) ++
    [(hdr.stateTableOff, ni.stateTableSize), (hdr.mappingTableOff, ni.mappingTableSize)]

section Bounds

variable {ni : Instance} {data : List UInt8} {startBa endBa : ℕ}

theorem nmbmCheckInfoTableHeader_true (h : nmbmCheckInfoTableHeader ni data = true) :
    (InfoTableHeader.ofBytes data).magic = nmbmMagicInfoTable ∧
      (InfoTableHeader.ofBytes data).size = ni.infoTableSize ∧
      ni.stateTableSize ≤ subU32 (InfoTableHeader.ofBytes data).mappingTableOff
        (InfoTableHeader.ofBytes data).stateTableOff ∧
      ni.mappingTableSize ≤
        subU32 ni.infoTableSize (InfoTableHeader.ofBytes data).mappingTableOff := by
  simpa [nmbmCheckInfoTableHeader, and_assoc] using h

theorem tableAccesses_inside
    (hstate : (InfoTableHeader.ofBytes data).stateTableOff + ni.stateTableSize ≤
      ni.infoTableSize)
    (hmapping : (InfoTableHeader.ofBytes data).mappingTableOff + ni.mappingTableSize ≤
      ni.infoTableSize)
    (hcount : 4 * ni.dataBlockCount ≤ ni.mappingTableSize)
    (hend : 4 * ((endBa + 15) / 16) ≤ ni.stateTableSize) :
    ∀ access ∈ tableAccesses ni data startBa endBa, access.1 + access.2 ≤ ni.infoTableSize := by
  intro access haccess
  simp only [tableAccesses, List.mem_append, List.mem_map, List.mem_range, List.mem_range'_1,
    List.mem_cons, List.not_mem_nil, or_false] at haccess
  rcases haccess with (⟨lb, hlb, rfl⟩ | ⟨ba, hba, rfl⟩) | rfl | rfl
  · change (InfoTableHeader.ofBytes data).mappingTableOff + 4 * lb + 4 ≤ _
    omega
  · change (InfoTableHeader.ofBytes data).stateTableOff + 4 * (ba / 16) + 4 ≤ _
    omega
  · exact hstate
  · exact hmapping

end Bounds

/-! ## Offsets out of order -/

def smallDevice (ratio : UInt32) : LowerDevice where
  maxRatio := ratio
  maxReservedBlocks := 0
  flagCreate := true
  size := 4096
  erasesize := 256
  writesize := 64
  oobsize := 16
  hasIsBadBlock := true
  hasMarkBadBlock := true

def blankFlash (bad : List ℕ) : Flash where
  pages _ _ := ⟨List.replicate 64 0xff, List.replicate 16 0xff⟩
  marked ba := decide (ba ∈ bad)

/-- The instance of the small chip while its tables are being searched, with
the signature in the last block. -/
def smallInstance : Instance :=
  { nmbmInitStructure (smallDevice 1) with dataBlockCount := 15, signatureBa := 15 }

def smallTable : List UInt8 :=
  infoTableImage smallInstance (nextInfoTableHeader smallInstance)

/-- The same table with its state table said to start 64 bytes before the
buffer, as a 32-bit offset, and with a valid checksum. -/
def wrappedTable : List UInt8 :=
  nmbmUpdateChecksum (overwrite smallTable 20 (toLE 4 (2 ^ 32 - 64)))
    smallInstance.infoTableSize

end Nwa50ax.Nmbm
