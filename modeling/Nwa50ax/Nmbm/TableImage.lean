import Nwa50ax.Nmbm.TableFormat

/-!
# Reading a table image back

The image that `nmbm_generate_info_table_cache` builds passes the checks of the
loader and holds the tables it was built from.
-/

namespace Nwa50ax.Nmbm

open ByteBuffer

/-! ## Checksums -/

theorem crcBit_lt {c : ℕ} (hc : c < 2 ^ 32) : crcBit c < 2 ^ 32 := by
  have hshift : c >>> 1 < 2 ^ 32 := (Nat.shiftRight_le c 1).trans_lt hc
  unfold crcBit
  split
  · exact Nat.xor_lt_two_pow (by decide) hshift
  · exact hshift

theorem crcTable_lt {n : ℕ} (hn : n < 2 ^ 32) : crcTable n < 2 ^ 32 := by
  unfold crcTable
  induction List.range 8 generalizing n with
  | nil => exact hn
  | cons _ rest ih => exact ih (crcBit_lt hn)

theorem nmbmCrc32_lt {crc : ℕ} (hcrc : crc < 2 ^ 32) (bytes : List UInt8) :
    nmbmCrc32 crc bytes < 2 ^ 32 := by
  unfold nmbmCrc32 crc32NoComp
  induction bytes generalizing crc with
  | nil => exact hcrc
  | cons byte bytes ih =>
      apply ih
      have hindex : (crc ^^^ byte.toNat) &&& 255 < 2 ^ 32 :=
        lt_of_le_of_lt Nat.and_le_right (by decide)
      exact Nat.xor_lt_two_pow (crcTable_lt hindex) ((Nat.shiftRight_le crc 8).trans_lt hcrc)

theorem nmbmCrc32_append (crc : ℕ) (bytes bytes' : List UInt8) :
    nmbmCrc32 crc (bytes ++ bytes') = nmbmCrc32 (nmbmCrc32 crc bytes) bytes' :=
  List.foldl_append

section Checksum

variable {data : List UInt8} {size : ℕ}

/-- The structure with the checksum cleared, over which it is computed. -/
def clearChecksum (data : List UInt8) : List UInt8 := overwrite data headerChecksumOff (toLE 4 0)

theorem length_clearChecksum (h : headerBytes ≤ data.length) :
    (clearChecksum data).length = data.length := by
  have h16 : 16 ≤ data.length := h
  exact length_overwrite (by simp [headerChecksumOff]; omega)

theorem length_nmbmUpdateChecksum (h : headerBytes ≤ data.length) :
    (nmbmUpdateChecksum data size).length = data.length := by
  have h16 : 16 ≤ data.length := h
  have hcleared := length_clearChecksum h
  refine (length_overwrite ?_).trans hcleared
  rw [show (overwrite data headerChecksumOff (toLE 4 0)).length = data.length from hcleared]
  simp [headerChecksumOff]
  omega

theorem slice_nmbmUpdateChecksum {off len : ℕ} (h : headerBytes ≤ data.length)
    (hoff : off + len ≤ headerChecksumOff ∨ headerBytes ≤ off) :
    slice (nmbmUpdateChecksum data size) off len = slice data off len := by
  have h12 : headerChecksumOff ≤ data.length := le_trans (by decide) h
  have hcleared : headerChecksumOff ≤ (clearChecksum data).length := by
    rw [length_clearChecksum h]
    exact h12
  rcases hoff with hbefore | hbehind
  · exact (slice_overwrite_before hcleared hbefore).trans (slice_overwrite_before h12 hbefore)
  · exact (slice_overwrite_behind hcleared (by rw [length_toLE]; exact hbehind)).trans
      (slice_overwrite_behind h12 (by rw [length_toLE]; exact hbehind))

theorem word32_nmbmUpdateChecksum (h : headerBytes ≤ data.length) :
    word32 (nmbmUpdateChecksum data size) headerChecksumOff =
      nmbmCrc32 0 ((clearChecksum data).take size) := by
  refine word32_of_slice ?_ (nmbmCrc32_lt (by decide) _)
  have hcleared : headerChecksumOff ≤ (clearChecksum data).length := by
    rw [length_clearChecksum h]
    exact le_trans (by decide) h
  have hslice := slice_overwrite (toLE 4 (nmbmCrc32 0 ((clearChecksum data).take size))) hcleared
  rw [length_toLE] at hslice
  exact hslice

theorem clearChecksum_header (h : headerBytes ≤ data.length) :
    overwrite ((nmbmUpdateChecksum data size).take headerBytes) headerChecksumOff (toLE 4 0) =
      (clearChecksum data).take headerBytes := by
  have hstart : (nmbmUpdateChecksum data size).take headerChecksumOff =
      data.take headerChecksumOff := by
    have hslice : slice (nmbmUpdateChecksum data size) 0 headerChecksumOff =
        slice data 0 headerChecksumOff := slice_nmbmUpdateChecksum h (.inl (by decide))
    simpa [slice] using hslice
  have hlen : (data.take headerChecksumOff ++ toLE 4 0).length = headerBytes := by
    have h16 : 16 ≤ data.length := h
    simp [headerChecksumOff, headerBytes]
    omega
  rw [clearChecksum, overwrite, overwrite, List.take_take, Nat.min_eq_left (by decide), hstart,
    length_toLE, List.take_left' hlen, List.drop_eq_nil_of_le, List.append_nil]
  exact List.length_take_le _ _

theorem nmbmCheckHeader_nmbmUpdateChecksum (hlen : data.length = size) (h : headerBytes ≤ size)
    (hsize : word32 data headerSizeOff = size) :
    nmbmCheckHeader (nmbmUpdateChecksum data size) size = true := by
  have hlen' : headerBytes ≤ data.length := hlen ▸ h
  have hhdr : word32 (nmbmUpdateChecksum data size) headerSizeOff = size := by
    rw [word32, slice_nmbmUpdateChecksum hlen' (.inl (by decide))]
    exact hsize
  have hrest : slice (nmbmUpdateChecksum data size) headerBytes (size - headerBytes) =
      (clearChecksum data).drop headerBytes := by
    rw [slice_nmbmUpdateChecksum hlen' (.inr le_rfl), clearChecksum]
    have hbehind : slice (overwrite data headerChecksumOff (toLE 4 0)) headerBytes
        (size - headerBytes) = slice data headerBytes (size - headerBytes) :=
      slice_overwrite_behind (le_trans (by decide) hlen') (by rw [length_toLE]; decide)
    rw [← hbehind, slice, List.take_of_length_le]
    rw [List.length_drop, show (overwrite data headerChecksumOff (toLE 4 0)).length = data.length
      from length_clearChecksum hlen', hlen]
  have hall : (clearChecksum data).take size = clearChecksum data :=
    List.take_of_length_le (by rw [length_clearChecksum hlen', hlen])
  have hcrc : nmbmCrc32 (nmbmCrc32 0 ((clearChecksum data).take headerBytes))
      ((clearChecksum data).drop headerBytes) = nmbmCrc32 0 (clearChecksum data) := by
    rw [← nmbmCrc32_append, List.take_append_drop]
  simp only [nmbmCheckHeader]
  rw [hhdr, if_neg (lt_irrefl size), clearChecksum_header hlen', word32_nmbmUpdateChecksum hlen',
    hall, decide_eq_true_iff, ← hcrc]
  split
  · rw [hrest]
  · rw [List.drop_eq_nil_of_le (by rw [length_clearChecksum hlen']; omega)]
    rfl

end Checksum

/-! ## Images -/

/-- The tables of an instance fit behind each other into the image. -/
structure TableLayout (ni : Instance) : Prop where
  header_le : infoTableHeaderBytes ≤ ni.infoTable.stateTableOff
  state_le : ni.infoTable.stateTableOff + ni.stateTableSize ≤ ni.infoTable.mappingTableOff
  mapping_le : ni.infoTable.mappingTableOff + ni.mappingTableSize ≤ ni.infoTableSize
  size_lt : ni.infoTableSize < 2 ^ 32
  states : ni.stateTableSize = 4 * ni.blockState.length
  mappings : ni.mappingTableSize = 4 * ni.blockMapping.length
  entries : ∀ entry ∈ ni.blockMapping, -2 ^ 31 ≤ entry ∧ entry < 2 ^ 31
  writeCount_lt : ni.infoTable.writeCount < 2 ^ 32

@[simp] theorem length_infoTableHeader_toBytes (hdr : InfoTableHeader) :
    hdr.toBytes.length = infoTableHeaderBytes := by
  simp [InfoTableHeader.toBytes, infoTableHeaderBytes]

def rawImage (ni : Instance) (hdr : InfoTableHeader) : List UInt8 :=
  overwrite (overwrite (overwrite (List.replicate ni.infoTableSize 0xff) hdr.stateTableOff
      (stateTableToBytes ni.blockState)) hdr.mappingTableOff
    (mappingTableToBytes ni.blockMapping)) 0 hdr.toBytes

section Image

variable {ni : Instance}

theorem TableLayout.length_states (h : TableLayout ni) :
    (stateTableToBytes ni.blockState).length = ni.stateTableSize := by
  rw [stateTableToBytes, length_flatMap_toLE, h.states]

theorem TableLayout.length_mappings (h : TableLayout ni) :
    (mappingTableToBytes ni.blockMapping).length = ni.mappingTableSize := by
  rw [mappingTableToBytes, length_flatMap_toLE, h.mappings]

theorem TableLayout.image_eq (h : TableLayout ni) {hdr : InfoTableHeader} :
    infoTableImage ni hdr = nmbmUpdateChecksum (rawImage ni hdr) ni.infoTableSize := by
  simp only [infoTableImage, rawImage]
  rw [List.take_of_length_le h.length_states.le, List.take_of_length_le h.length_mappings.le]

theorem nextInfoTableHeader_offsets (ni : Instance) :
    (nextInfoTableHeader ni).stateTableOff = ni.infoTable.stateTableOff ∧
      (nextInfoTableHeader ni).mappingTableOff = ni.infoTable.mappingTableOff ∧
      (nextInfoTableHeader ni).size = ni.infoTableSize ∧
      (nextInfoTableHeader ni).magic = nmbmMagicInfoTable :=
  ⟨rfl, rfl, rfl, rfl⟩

theorem TableLayout.header_room (h : TableLayout ni) : infoTableHeaderBytes ≤ ni.infoTableSize := by
  have := h.header_le
  have := h.state_le
  have := h.mapping_le
  omega

theorem TableLayout.headerBytes_le (h : TableLayout ni) : headerBytes ≤ ni.infoTableSize :=
  le_trans (by decide) h.header_room

theorem TableLayout.rawImage_slices (h : TableLayout ni) :
    (rawImage ni (nextInfoTableHeader ni)).length = ni.infoTableSize ∧
      slice (rawImage ni (nextInfoTableHeader ni)) 0 infoTableHeaderBytes =
        (nextInfoTableHeader ni).toBytes ∧
      slice (rawImage ni (nextInfoTableHeader ni)) ni.infoTable.stateTableOff ni.stateTableSize =
        stateTableToBytes ni.blockState ∧
      slice (rawImage ni (nextInfoTableHeader ni)) ni.infoTable.mappingTableOff
        ni.mappingTableSize = mappingTableToBytes ni.blockMapping := by
  obtain ⟨hstate, hmapping, -, -⟩ := nextInfoTableHeader_offsets ni
  have hroom := h.header_room
  have hheader := h.header_le
  have hstates := h.state_le
  have hmappings := h.mapping_le
  unfold rawImage
  rw [hstate, hmapping]
  have hlen₁ : (overwrite (List.replicate ni.infoTableSize 0xff) ni.infoTable.stateTableOff
      (stateTableToBytes ni.blockState)).length = ni.infoTableSize := by
    rw [length_overwrite (by rw [h.length_states, List.length_replicate]; omega),
      List.length_replicate]
  have hstate₁ : slice (overwrite (List.replicate ni.infoTableSize 0xff)
      ni.infoTable.stateTableOff (stateTableToBytes ni.blockState)) ni.infoTable.stateTableOff
      (stateTableToBytes ni.blockState).length = stateTableToBytes ni.blockState :=
    slice_overwrite _ (by rw [List.length_replicate]; omega)
  rw [h.length_states] at hstate₁
  generalize overwrite (List.replicate ni.infoTableSize 0xff) ni.infoTable.stateTableOff
    (stateTableToBytes ni.blockState) = tables₁ at hlen₁ hstate₁ ⊢
  have hlen₂ : (overwrite tables₁ ni.infoTable.mappingTableOff
      (mappingTableToBytes ni.blockMapping)).length = ni.infoTableSize := by
    rw [length_overwrite (by rw [h.length_mappings, hlen₁]; omega), hlen₁]
  have hstate₂ : slice (overwrite tables₁ ni.infoTable.mappingTableOff
      (mappingTableToBytes ni.blockMapping)) ni.infoTable.stateTableOff ni.stateTableSize =
      slice tables₁ ni.infoTable.stateTableOff ni.stateTableSize :=
    slice_overwrite_before (by omega) hstates
  have hmapping₂ : slice (overwrite tables₁ ni.infoTable.mappingTableOff
      (mappingTableToBytes ni.blockMapping)) ni.infoTable.mappingTableOff
      (mappingTableToBytes ni.blockMapping).length = mappingTableToBytes ni.blockMapping :=
    slice_overwrite _ (by omega)
  rw [h.length_mappings] at hmapping₂
  generalize overwrite tables₁ ni.infoTable.mappingTableOff
    (mappingTableToBytes ni.blockMapping) = tables₂ at hlen₂ hstate₂ hmapping₂ ⊢
  have hbytes := length_infoTableHeader_toBytes (nextInfoTableHeader ni)
  refine ⟨?_, ?_, ?_, ?_⟩
  · rw [length_overwrite (by rw [hbytes]; omega), hlen₂]
  · rw [← hbytes]
    exact slice_overwrite _ (Nat.zero_le _)
  · rw [slice_overwrite_behind (Nat.zero_le _) (by rw [hbytes]; omega), hstate₂, hstate₁]
  · rw [slice_overwrite_behind (Nat.zero_le _) (by rw [hbytes]; omega), hmapping₂]

def nextImage (ni : Instance) : List UInt8 := infoTableImage ni (nextInfoTableHeader ni)

theorem TableLayout.nextImage_slices (h : TableLayout ni) :
    (nextImage ni).length = ni.infoTableSize ∧
      slice (nextImage ni) ni.infoTable.stateTableOff ni.stateTableSize =
        stateTableToBytes ni.blockState ∧
      slice (nextImage ni) ni.infoTable.mappingTableOff ni.mappingTableSize =
        mappingTableToBytes ni.blockMapping ∧
      ∀ off, off + 4 ≤ infoTableHeaderBytes → off + 4 ≤ headerChecksumOff ∨ headerBytes ≤ off →
        slice (nextImage ni) off 4 = slice (nextInfoTableHeader ni).toBytes off 4 := by
  obtain ⟨hlen, hheader, hstate, hmapping⟩ := h.rawImage_slices
  have hbytes : headerBytes ≤ (rawImage ni (nextInfoTableHeader ni)).length :=
    hlen ▸ h.headerBytes_le
  have hstart : headerBytes ≤ ni.infoTable.stateTableOff := le_trans (by decide) h.header_le
  have hstates := h.state_le
  rw [nextImage, h.image_eq]
  refine ⟨?_, ?_, ?_, fun off hoff houtside => ?_⟩
  · rw [length_nmbmUpdateChecksum hbytes, hlen]
  · rw [slice_nmbmUpdateChecksum hbytes (.inr hstart), hstate]
  · rw [slice_nmbmUpdateChecksum hbytes (.inr (by omega)), hmapping]
  · rw [slice_nmbmUpdateChecksum hbytes houtside, ← hheader, slice_slice hoff, Nat.zero_add]

theorem TableLayout.ofBytes_nextImage (h : TableLayout ni) {n : ℕ}
    (hn : infoTableHeaderBytes ≤ n) :
    (InfoTableHeader.ofBytes ((nextImage ni).take n)).magic = nmbmMagicInfoTable ∧
      (InfoTableHeader.ofBytes ((nextImage ni).take n)).size = ni.infoTableSize ∧
      (InfoTableHeader.ofBytes ((nextImage ni).take n)).writeCount =
        (nextInfoTableHeader ni).writeCount ∧
      (InfoTableHeader.ofBytes ((nextImage ni).take n)).stateTableOff =
        ni.infoTable.stateTableOff ∧
      (InfoTableHeader.ofBytes ((nextImage ni).take n)).mappingTableOff =
        ni.infoTable.mappingTableOff := by
  obtain ⟨-, -, -, hwords⟩ := h.nextImage_slices
  have hword : ∀ off word, off + 4 ≤ infoTableHeaderBytes →
      off + 4 ≤ headerChecksumOff ∨ headerBytes ≤ off →
      slice (nextInfoTableHeader ni).toBytes off 4 = toLE 4 word → word < 2 ^ 32 →
      word32 ((nextImage ni).take n) off = word := by
    intro off word hoff houtside hslice hlt
    refine word32_of_slice ?_ hlt
    rw [← hslice, ← hwords off hoff houtside, ← List.drop_zero (l := nextImage ni),
      show ((nextImage ni).drop 0).take n = slice (nextImage ni) 0 n from rfl,
      slice_slice (by omega), List.drop_zero, Nat.zero_add]
  have hcount : (nextInfoTableHeader ni).writeCount < 2 ^ 32 := by
    unfold nextInfoTableHeader
    dsimp only
    split
    · exact u32_lt _
    · exact h.writeCount_lt
  have hsize := h.size_lt
  have hstates := h.state_le
  have hmappings := h.mapping_le
  refine ⟨?_, ?_, ?_, ?_, ?_⟩
  · exact hword 0 _ (by decide) (.inl (by decide)) rfl (by decide)
  · exact hword 8 _ (by decide) (.inl (by decide)) rfl hsize
  · exact hword 16 _ (by decide) (.inr (by decide)) rfl hcount
  · exact hword 20 _ (by decide) (.inr (by decide)) rfl (by omega)
  · exact hword 24 _ (by decide) (.inr (by decide)) rfl (by omega)

end Image

/-! ## What the loader makes of an image -/

structure SameSizes (ni ni' : Instance) : Prop where
  lower : ni'.lower = ni.lower
  infoTableSize : ni'.infoTableSize = ni.infoTableSize
  stateTableSize : ni'.stateTableSize = ni.stateTableSize
  mappingTableSize : ni'.mappingTableSize = ni.mappingTableSize

section Loader

variable {ni ni' : Instance}

theorem TableLayout.checkInfoTableHeader (h : TableLayout ni) (hsizes : SameSizes ni ni') {n : ℕ}
    (hn : infoTableHeaderBytes ≤ n) :
    nmbmCheckInfoTableHeader ni' ((nextImage ni).take n) = true := by
  obtain ⟨hmagic, hsize, -, hstate, hmapping⟩ := h.ofBytes_nextImage hn
  have hstates := h.state_le
  have hmappings := h.mapping_le
  have hlt := h.size_lt
  simp only [nmbmCheckInfoTableHeader, hmagic, hsize, hstate, hmapping, hsizes.infoTableSize,
    hsizes.stateTableSize, hsizes.mappingTableSize]
  rw [subU32_of_le (by omega) (by omega), subU32_of_le (by omega) hlt]
  simp only [decide_true, Bool.true_and, Bool.and_eq_true, decide_eq_true_eq]
  omega

theorem TableLayout.checkHeader (h : TableLayout ni) (hsizes : SameSizes ni ni') :
    nmbmCheckHeader (nextImage ni) ni'.infoTableSize = true := by
  obtain ⟨hlen, hheader, -, -⟩ := h.rawImage_slices
  rw [hsizes.infoTableSize, nextImage, h.image_eq]
  refine nmbmCheckHeader_nmbmUpdateChecksum hlen h.headerBytes_le (word32_of_slice ?_ h.size_lt)
  have hslice : slice (slice (rawImage ni (nextInfoTableHeader ni)) 0 infoTableHeaderBytes)
      headerSizeOff 4 = slice (rawImage ni (nextInfoTableHeader ni)) (0 + headerSizeOff) 4 :=
    slice_slice (by decide)
  rw [hheader, Nat.zero_add] at hslice
  rw [← hslice]
  rfl

theorem TableLayout.take_all (h : TableLayout ni) :
    (nextImage ni).take ni.infoTableSize = nextImage ni :=
  List.take_of_length_le h.nextImage_slices.1.le

theorem TableLayout.imageMapping_eq (h : TableLayout ni) {lb : ℕ}
    (hlb : lb < ni.blockMapping.length) :
    imageMapping (nextImage ni) lb = (ni.blockMapping.get ⟨lb, hlb⟩ % 2 ^ 32).toNat := by
  obtain ⟨-, -, -, -, hoff⟩ := h.ofBytes_nextImage h.header_room
  obtain ⟨-, -, hmapping, -⟩ := h.nextImage_slices
  rw [h.take_all] at hoff
  rw [h.mappings] at hmapping
  rw [imageMapping, hoff]
  exact words_of_table _ hmapping (fun entry _ => by omega) hlb

theorem TableLayout.imageState_eq (h : TableLayout ni) (hsizes : SameSizes ni ni') :
    imageState ni' (nextImage ni) = ni.blockState := by
  obtain ⟨-, -, -, hoff, -⟩ := h.ofBytes_nextImage h.header_room
  obtain ⟨-, hstate, -, -⟩ := h.nextImage_slices
  rw [h.take_all] at hoff
  rw [h.states] at hstate
  rw [imageState, hoff, hsizes.stateTableSize, h.states, stateTableOfBytes, toWords32_slice,
    Nat.mul_div_cancel_left _ (by decide)]
  apply List.ext_getElem
  · simp
  · intro i hi hi'
    rw [List.getElem_map, List.getElem_map, List.getElem_range,
      words_of_table _ hstate (fun unit _ => unit.isLt) hi']
    exact BitVec.eq_of_toNat_eq (by simp)

theorem toInt32_of_range {entry : ℤ} (h : -2 ^ 31 ≤ entry ∧ entry < 2 ^ 31) :
    toInt32 (entry % 2 ^ 32).toNat = entry := by
  unfold toInt32
  split <;> omega

theorem TableLayout.loadImage_eq (h : TableLayout ni) (hsizes : SameSizes ni ni')
    (hlength : ni'.blockMapping.length = ni.blockMapping.length) :
    (ni'.loadImage (nextImage ni)).blockState = ni.blockState ∧
      (ni'.loadImage (nextImage ni)).blockMapping = ni.blockMapping ∧
      (ni'.loadImage (nextImage ni)).infoTable.writeCount =
        (nextInfoTableHeader ni).writeCount := by
  obtain ⟨-, -, hcount, -, hoff⟩ := h.ofBytes_nextImage h.header_room
  obtain ⟨-, -, hmapping, -⟩ := h.nextImage_slices
  rw [h.take_all] at hoff hcount
  rw [h.mappings] at hmapping
  refine ⟨h.imageState_eq hsizes, ?_, hcount⟩
  have hentries : mappingTableOfBytes (ni'.mappingTableSize / 4)
      ((nextImage ni).drop ni.infoTable.mappingTableOff) = ni.blockMapping := by
    rw [hsizes.mappingTableSize, h.mappings, mappingTableOfBytes, toWords32_slice,
      Nat.mul_div_cancel_left _ (by decide)]
    apply List.ext_getElem
    · simp
    · intro i hi hi'
      rw [List.getElem_map, List.getElem_map, List.getElem_range,
        words_of_table _ hmapping (fun entry _ => by omega) hi']
      exact toInt32_of_range (h.entries _ (List.getElem_mem hi'))
  simp only [Instance.loadImage, hoff, hentries]
  rw [List.drop_eq_nil_of_le hlength.le, List.append_nil]

theorem TableLayout.checkMapping (h : TableLayout ni) {endBa : ℕ} (lb minimum count : ℕ)
    (hcount : lb + count ≤ ni.blockMapping.length)
    (hoff : ∀ entry ∈ ni.blockMapping,
      ¬((ni'.dataBlockCount ≤ (entry % 2 ^ 32).toNat ∧ (entry % 2 ^ 32).toNat < endBa) ∨
        (entry % 2 ^ 32).toNat = ni'.signatureBa)) :
    ∃ found, checkMappingLoop ni' (nextImage ni) endBa lb minimum count = some found := by
  induction count generalizing lb minimum with
  | zero => exact ⟨minimum, rfl⟩
  | succ count ih =>
      have hlb : lb < ni.blockMapping.length := by omega
      simp only [checkMappingLoop]
      rw [h.imageMapping_eq hlb, if_neg (hoff _ (List.get_mem _ _))]
      exact ih _ _ (by omega)

end Loader

/-! ## Every geometry -/

theorem nmbmAlign_bounds {v a : ℕ} (ha : 0 < a) (hv : v + a ≤ 2 ^ 32) :
    v ≤ nmbmAlign v a ∧ nmbmAlign v a < v + a := by
  have hdiv := Nat.div_add_mod' (v + a - 1) a
  have hmod := Nat.mod_lt (v + a - 1) ha
  unfold nmbmAlign u32
  rw [Nat.mod_eq_of_lt (by omega)]
  omega

theorem initStructure_layout {nld : LowerDevice} (hws : 0 < nld.writesize.toNat)
    (hblocks : blockCountOf nld ≤ 2 ^ 28) (hwritesize : nld.writesize.toNat ≤ 2 ^ 28) :
    TableLayout (nmbmInitStructure nld) := by
  obtain ⟨hheader, hheader'⟩ : infoTableHeaderBytes ≤ _ ∧ _ :=
    nmbmAlign_bounds hws (by simp only [infoTableHeaderBytes]; omega)
  obtain ⟨hstate, hstate'⟩ : (blockCountOf nld + 15) / 16 * 4 ≤ _ ∧ _ :=
    nmbmAlign_bounds hws (by omega)
  obtain ⟨hmapping, hmapping'⟩ : blockCountOf nld * 4 ≤ _ ∧ _ :=
    nmbmAlign_bounds hws (by omega)
  have hu32 : ∀ {n : ℕ}, n < 2 ^ 32 → u32 n = n := by
    intro n hn
    unfold u32
    exact Nat.mod_eq_of_lt hn
  have hbytes : infoTableHeaderBytes = 32 := rfl
  have hmappingSize : (nmbmInitStructure nld).mappingTableSize = blockCountOf nld * 4 :=
    hu32 (by omega)
  have hmappingOff : (nmbmInitStructure nld).infoTable.mappingTableOff =
      nmbmAlign infoTableHeaderBytes nld.writesize.toNat +
        nmbmAlign ((blockCountOf nld + 15) / 16 * 4) nld.writesize.toNat :=
    hu32 (by omega)
  have hsize : (nmbmInitStructure nld).infoTableSize =
      (nmbmInitStructure nld).infoTable.mappingTableOff +
        nmbmAlign (blockCountOf nld * 4) nld.writesize.toNat := by
    rw [← hmappingSize]
    refine hu32 ?_
    change (nmbmInitStructure nld).infoTable.mappingTableOff +
      nmbmAlign (nmbmInitStructure nld).mappingTableSize nld.writesize.toNat < _
    rw [hmappingOff, hmappingSize]
    omega
  refine ⟨hheader, ?_, ?_, ?_, ?_, ?_, ?_, (by decide : 0 < 2 ^ 32)⟩
  · rw [hmappingOff]
    exact Nat.add_le_add_left hstate _
  · rw [hsize, hmappingSize]
    exact Nat.add_le_add_left hmapping _
  · rw [hsize, hmappingOff]
    omega
  · change (blockCountOf nld + 15) / 16 * 4 = 4 * (List.replicate _ _).length
    rw [List.length_replicate, Nat.mul_comm]
  · rw [hmappingSize, Nat.mul_comm]
    change _ = 4 * (List.replicate _ _).length
    rw [List.length_replicate]
  · intro entry hentry
    rw [List.eq_of_mem_replicate hentry]
    decide

end Nwa50ax.Nmbm
