import Nwa50ax.Lib.StructPack
import Nwa50ax.Zyxel.Mrd

/-!
# Images of the MRD partition

`gen-mrd.py` packs the description of a product into one block: zeros, three
bytes of magic and the MRD.
-/

namespace Nwa50ax.Zyxel

open ByteBuffer ByteStore StateProgram PackedStruct StructPack

/-! ## The generator -/

/-- `mrd.json` after the conversion of its numbers; strings are encoded. -/
structure MrdDescription where
  magic : List UInt8
  bspHeapBlkSize : List ℤ
  bspHeapBlkCnt : List ℤ
  hardwareVersion : List UInt8
  serialNumber : List UInt8
  reserved0 : List ℤ
  verdorName : List UInt8
  productName : List UInt8
  reserved4 : List ℤ
  reserved1 : List ℤ
  systemType : ℤ
  reserved2 : ℤ
  modelId : ℤ
  mfg : ℤ
  featureBits0 : List ℤ
  macqty : ℤ
  featureBits1 : List ℤ
  featureBit : ℤ
  reserved3 : ℤ
  etherAddr : List ℤ
  countryCode : ℤ
  areaCode : ℤ

/-- `3s16B16B32s32s32B32s32s4B2BBBHB13BB13BBB6BBB`. -/
def mrdFormat : List Item :=
  [⟨3, .string⟩, ⟨16, .byte⟩, ⟨16, .byte⟩, ⟨32, .string⟩, ⟨32, .string⟩, ⟨32, .byte⟩,
    ⟨32, .string⟩, ⟨32, .string⟩, ⟨4, .byte⟩, ⟨2, .byte⟩, ⟨1, .byte⟩, ⟨1, .byte⟩, ⟨1, .half⟩,
    ⟨1, .byte⟩, ⟨13, .byte⟩, ⟨1, .byte⟩, ⟨13, .byte⟩, ⟨1, .byte⟩, ⟨1, .byte⟩, ⟨6, .byte⟩,
    ⟨1, .byte⟩, ⟨1, .byte⟩]

def ints (ns : List ℤ) : List Value :=
  ns.map .int

/-- The arguments of `struct.pack`, grouped by the items that take them. -/
def MrdDescription.arguments (d : MrdDescription) : List (List Value) :=
  [[.bytes d.magic], ints d.bspHeapBlkSize, ints d.bspHeapBlkCnt, [.bytes d.hardwareVersion],
    [.bytes d.serialNumber], ints d.reserved0, [.bytes d.verdorName], [.bytes d.productName],
    ints d.reserved4, ints d.reserved1, ints [d.systemType], ints [d.reserved2], [.int d.modelId],
    ints [d.mfg], ints d.featureBits0, ints [d.macqty], ints d.featureBits1, ints [d.featureBit],
    ints [d.reserved3], ints d.etherAddr, ints [d.countryCode], ints [d.areaCode]]

/-- The image for a partition size in KiB; a negative padding is an error. -/
def genMrd (size : ℕ) (d : MrdDescription) : Option (List UInt8) :=
  if size * 1024 < calcsize mrdFormat then none
  else pack (⟨size * 1024 - calcsize mrdFormat, .pad⟩ :: mrdFormat) d.arguments.flatten

/-! ## Descriptions -/

def IsBytes (count : ℕ) (ns : List ℤ) : Prop :=
  ns.length = count ∧ ∀ n ∈ ns, 0 ≤ n ∧ n < 256

def IsByte (n : ℤ) : Prop :=
  0 ≤ n ∧ n < 256

structure MrdDescription.InRange (d : MrdDescription) : Prop where
  bspHeapBlkSize : IsBytes 16 d.bspHeapBlkSize
  bspHeapBlkCnt : IsBytes 16 d.bspHeapBlkCnt
  hardwareVersion : d.hardwareVersion.length ≤ 32
  serialNumber : d.serialNumber.length ≤ 32
  reserved0 : IsBytes 32 d.reserved0
  verdorName : d.verdorName.length ≤ 32
  productName : d.productName.length ≤ 32
  reserved4 : IsBytes 4 d.reserved4
  reserved1 : IsBytes 2 d.reserved1
  systemType : IsByte d.systemType
  reserved2 : IsByte d.reserved2
  modelId : 0 ≤ d.modelId ∧ d.modelId < 2 ^ 16
  mfg : IsByte d.mfg
  featureBits0 : IsBytes 13 d.featureBits0
  macqty : IsByte d.macqty
  featureBits1 : IsBytes 13 d.featureBits1
  featureBit : IsByte d.featureBit
  reserved3 : IsByte d.reserved3
  etherAddr : IsBytes 6 d.etherAddr
  countryCode : IsByte d.countryCode
  areaCode : IsByte d.areaCode

def octets (ns : List ℤ) : List UInt8 :=
  ns.map fun n => UInt8.ofNat n.toNat

/-- The fields that are described. -/
def MrdDescription.field (d : MrdDescription) : MrdField → List UInt8
  | .bspHeapBlkSize => octets d.bspHeapBlkSize
  | .bspHeapBlkCnt => octets d.bspHeapBlkCnt
  | .hardwareVersion => padded 32 d.hardwareVersion
  | .serialNumber => padded 32 d.serialNumber
  | .reserved0 => octets d.reserved0
  | .vendorName => padded 32 d.verdorName
  | .productName => padded 32 d.productName
  | .reserved4 => octets d.reserved4
  | .reserved1 => octets d.reserved1
  | .systemType => octets [d.systemType]
  | .reserved2 => octets [d.reserved2]
  | .featureBits =>
      toLE 2 d.modelId.toNat ++ octets [d.mfg] ++ octets d.featureBits0 ++ octets [d.macqty] ++
        octets d.featureBits1
  | .featureBit => octets [d.featureBit]
  | .reserved3 => octets [d.reserved3]
  | .etherAddr => octets d.etherAddr
  | .countryCode => octets [d.countryCode]
  | .areaCode => octets [d.areaCode]

section Description

variable {d : MrdDescription}

theorem IsByte.isBytes {n : ℤ} (h : IsByte n) : IsBytes 1 [n] :=
  ⟨rfl, List.forall_mem_singleton.mpr h⟩

theorem IsBytes.packs {count : ℕ} {ns : List ℤ} (h : IsBytes count ns) :
    Packs ⟨count, .byte⟩ (ints ns) (octets ns) :=
  packs_bytes h.1 h.2

theorem IsByte.packs {n : ℤ} (h : IsByte n) : Packs ⟨1, .byte⟩ (ints [n]) (octets [n]) :=
  h.isBytes.packs

theorem packs_padded {text : List UInt8} (h : text.length ≤ 32) :
    Packs ⟨32, .string⟩ [.bytes text] (padded 32 text) := by
  have hfit : fitString 32 text = padded 32 text := by
    rw [fitString, padded, List.take_of_length_le h]
  rw [← hfit]
  exact packs_string 32 text

theorem length_octets (ns : List ℤ) : (octets ns).length = ns.length :=
  List.length_map ..

theorem length_padded {width : ℕ} {text : List UInt8} (h : text.length ≤ width) :
    (padded width text).length = width := by
  simp [padded, h]

theorem MrdDescription.InRange.length_field (hd : d.InRange) (f : MrdField) :
    (d.field f).length = mrdLayout.width f := by
  cases f with
  | bspHeapBlkSize => exact (length_octets _).trans hd.bspHeapBlkSize.1
  | bspHeapBlkCnt => exact (length_octets _).trans hd.bspHeapBlkCnt.1
  | hardwareVersion => exact length_padded hd.hardwareVersion
  | serialNumber => exact length_padded hd.serialNumber
  | reserved0 => exact (length_octets _).trans hd.reserved0.1
  | vendorName => exact length_padded hd.verdorName
  | productName => exact length_padded hd.productName
  | reserved4 => exact (length_octets _).trans hd.reserved4.1
  | reserved1 => exact (length_octets _).trans hd.reserved1.1
  | featureBits =>
      simp only [MrdDescription.field, List.length_append, length_toLE, length_octets,
        hd.featureBits0.1, hd.featureBits1.1]
      rfl
  | etherAddr => exact (length_octets _).trans hd.etherAddr.1
  | systemType | reserved2 | featureBit | reserved3 | countryCode | areaCode => rfl

theorem MrdDescription.InRange.genMrd_eq (hd : d.InRange) {size : ℕ} (hsize : 0 < size) :
    genMrd size d = some (List.replicate (size * 1024 - 243) 0 ++ fitString 3 d.magic ++
      mrdLayout.pack d.field) := by
  have hformat : calcsize mrdFormat = 243 := rfl
  have hall : PacksAll (⟨size * 1024 - 243, .pad⟩ :: mrdFormat) ([] :: d.arguments)
      [List.replicate (size * 1024 - 243) 0, fitString 3 d.magic, octets d.bspHeapBlkSize,
        octets d.bspHeapBlkCnt, padded 32 d.hardwareVersion, padded 32 d.serialNumber,
        octets d.reserved0, padded 32 d.verdorName, padded 32 d.productName, octets d.reserved4,
        octets d.reserved1, octets [d.systemType], octets [d.reserved2], toLE 2 d.modelId.toNat,
        octets [d.mfg], octets d.featureBits0, octets [d.macqty], octets d.featureBits1,
        octets [d.featureBit], octets [d.reserved3], octets d.etherAddr, octets [d.countryCode],
        octets [d.areaCode]] :=
    ⟨packs_pad _, packs_string 3 _, hd.bspHeapBlkSize.packs, hd.bspHeapBlkCnt.packs,
      packs_padded hd.hardwareVersion, packs_padded hd.serialNumber, hd.reserved0.packs,
      packs_padded hd.verdorName, packs_padded hd.productName, hd.reserved4.packs,
      hd.reserved1.packs, hd.systemType.packs, hd.reserved2.packs,
      packs_half hd.modelId.1 hd.modelId.2, hd.mfg.packs, hd.featureBits0.packs, hd.macqty.packs,
      hd.featureBits1.packs, hd.featureBit.packs, hd.reserved3.packs, hd.etherAddr.packs,
      hd.countryCode.packs, hd.areaCode.packs, trivial⟩
  rw [genMrd, hformat, if_neg (by omega), ← List.nil_append d.arguments.flatten,
    ← List.flatten_cons, hall.pack_eq]
  simp only [List.flatten_cons, List.flatten_nil, Layout.pack, mrdLayout, MrdField.order,
    List.flatMap_cons, List.flatMap_nil, MrdDescription.field, List.append_assoc]

theorem MrdDescription.InRange.exists_image (hd : d.InRange) {size : ℕ} (hsize : 0 < size) :
    ∃ image, genMrd size d = some image :=
  ⟨_, hd.genMrd_eq hsize⟩

theorem MrdDescription.InRange.length_image (hd : d.InRange) {size : ℕ} (hsize : 0 < size) :
    (List.replicate (size * 1024 - 243) 0 ++ fitString 3 d.magic ++
      mrdLayout.pack d.field).length = 1024 * size := by
  have hpack : (mrdLayout.pack d.field).length = 240 := mrdLayout.length_pack hd.length_field
  rw [List.length_append, List.length_append, List.length_replicate, length_fitString, hpack]
  omega

end Description

/-! ## Reading an image -/

theorem mrdOffsetGet_nonneg {board : Board} (hmin : 240 ≤ board.eraseSize.toNat)
    (hmax : board.eraseSize.toNat ≤ 2 ^ 31) : ¬mrdOffsetGet board < 0 := by
  have hlt := board.eraseSize.isLt
  have hsize : (240 : U32).toNat = 240 := rfl
  unfold mrdOffsetGet
  split
  case isTrue hzero =>
      rw [hzero] at hmin
      exact absurd hmin (by decide)
  case isFalse =>
      rw [BitVec.toInt_eq_toNat_cond, BitVec.toNat_sub, hsize]
      split <;> omega

theorem Board.Works.mrdRead {board : Board} (h : board.Works) {part : Partition}
    (hpart : board.partition partNameMrd = some part) (hmin : 240 ≤ board.eraseSize.toNat)
    (hmax : board.eraseSize.toNat ≤ 2 ^ 31) (hsize : board.eraseSize.toNat ≤ part.size)
    {flash : Flash} (hin : part.off + board.eraseSize.toNat ≤ flash.size) {mrd : List UInt8}
    (hmrd : mrd.length = 240) :
    0 ≤ (mrdRead board mrd flash).1.1 ∧
      (mrdRead board mrd flash).1.2 = mrdOnFlash board part flash := by
  have hoffset := mrdOffsetGet_nonneg hmin hmax
  have htoNat := (mrdOffset_toNat hoffset).2.2
  have hadmits : Admits board part (BitVec.ofInt 32 (mrdOffsetGet board)) 240 :=
    ⟨h.flash, h.eraseSize, by omega, le_trans hmin hsize⟩
  have hret : 0 ≤ (Zyxel.mrdRead board mrd flash).1.1 :=
    (mrdRead_iff hpart hoffset hadmits hmax hin).mpr ⟨h.malloc _ _, h.fails _⟩
  exact ⟨hret, mrdRead_success hpart hmax hmrd hret⟩

/-- An image in the partition of a flash without failures is read back field by
field. -/
theorem mrd_image_round_trip {d : MrdDescription} (hd : d.InRange) {board : Board}
    (hworks : board.Works) {size : ℕ} (hsize : 0 < size)
    (herase : board.eraseSize.toNat = 1024 * size) (hmax : board.eraseSize.toNat ≤ 2 ^ 31)
    {part : Partition} (hpart : board.partition partNameMrd = some part)
    (hfits : board.eraseSize.toNat ≤ part.size) {mrd : List UInt8} (hmrd : mrd.length = 240) :
    ∃ image, genMrd size d = some image ∧ image.length = board.eraseSize.toNat ∧
      ∀ flash : Flash, part.off + image.length ≤ flash.size →
        region flash.bytes part.off image.length = image →
        0 ≤ (mrdRead board mrd flash).1.1 ∧
          (∀ f, mrdLayout.get (mrdRead board mrd flash).1.2 f = d.field f) ∧
          ((modelGet board mrd flash).1 : ℤ) = d.modelId := by
  have hlength := hd.length_image hsize
  have himage := hd.genMrd_eq hsize
  refine ⟨_, himage, hlength.trans herase.symm, fun flash hin hflash => ?_⟩
  rw [hlength] at hin hflash
  have hmrdOnFlash : mrdOnFlash board part flash = mrdLayout.pack d.field := by
    rw [show 1024 * size = (1024 * size - 240) + 240 by omega, region_add, ← herase] at hflash
    refine (List.append_inj hflash ?_).2
    rw [length_region, List.length_append, List.length_replicate, length_fitString]
    omega
  have hblock : part.off + board.eraseSize.toNat ≤ flash.size := by omega
  obtain ⟨hret, hvariable⟩ := hworks.mrdRead hpart (by omega) hmax hfits hblock hmrd
  rw [hmrdOnFlash] at hvariable
  have hfields : ∀ f, mrdLayout.get (mrdRead board mrd flash).1.2 f = d.field f := by
    rw [hvariable]
    exact Layout.get_pack hd.length_field
  refine ⟨hret, hfields, ?_⟩
  have hmodel : (modelGet board mrd flash).1 = d.modelId.toNat := by
    have hbits : (d.field .featureBits).take 2 = toLE 2 d.modelId.toNat := by
      simp only [MrdDescription.field, List.append_assoc]
      exact List.take_left' (length_toLE ..)
    calc (modelGet board mrd flash).1
        = fromLE ((mrdLayout.get (mrdRead board mrd flash).1.2 .featureBits).take 2) := rfl
      _ = fromLE (toLE 2 d.modelId.toNat) := by rw [hfields, hbits]
      _ = d.modelId.toNat := fromLE_toLE_of_lt (by have := hd.modelId; omega)
  rw [hmodel, Int.toNat_of_nonneg hd.modelId.1]

/-! ## A product -/

def sampleDescription : MrdDescription where
  magic := cString "SIG"
  bspHeapBlkSize := List.replicate 16 0
  bspHeapBlkCnt := List.replicate 16 0
  hardwareVersion := cString "Zyxel"
  serialNumber := cString "Z34131340 80-009-011001AA"
  reserved0 := List.replicate 32 0
  verdorName := cString "Zyxel Communications Corp."
  productName := cString "NWA50AX"
  reserved4 := List.replicate 4 0
  reserved1 := List.replicate 2 255
  systemType := 10
  reserved2 := 255
  modelId := 0x1234
  mfg := 0
  featureBits0 := List.replicate 13 0
  macqty := 4
  featureBits1 := List.replicate 13 0
  featureBit := 0
  reserved3 := 255
  etherAddr := [0, 0x13, 0x49, 0, 0, 1]
  countryCode := 255
  areaCode := 1

theorem isBytes_replicate {count : ℕ} {n : ℤ} (h : IsByte n) :
    IsBytes count (List.replicate count n) := by
  refine ⟨List.length_replicate .., fun m hm => ?_⟩
  rw [List.eq_of_mem_replicate hm]
  exact h

theorem sampleDescription_inRange : sampleDescription.InRange where
  bspHeapBlkSize := isBytes_replicate ⟨by decide, by decide⟩
  bspHeapBlkCnt := isBytes_replicate ⟨by decide, by decide⟩
  hardwareVersion := by decide
  serialNumber := by decide
  reserved0 := isBytes_replicate ⟨by decide, by decide⟩
  verdorName := by decide
  productName := by decide
  reserved4 := isBytes_replicate ⟨by decide, by decide⟩
  reserved1 := isBytes_replicate ⟨by decide, by decide⟩
  systemType := ⟨by decide, by decide⟩
  reserved2 := ⟨by decide, by decide⟩
  modelId := ⟨by decide, by decide⟩
  mfg := ⟨by decide, by decide⟩
  featureBits0 := isBytes_replicate ⟨by decide, by decide⟩
  macqty := ⟨by decide, by decide⟩
  featureBits1 := isBytes_replicate ⟨by decide, by decide⟩
  featureBit := ⟨by decide, by decide⟩
  reserved3 := ⟨by decide, by decide⟩
  etherAddr := ⟨rfl, by decide⟩
  countryCode := ⟨by decide, by decide⟩
  areaCode := ⟨by decide, by decide⟩

def blockBoard (eraseSize : U32) : Board where
  hasFlash := true
  eraseSize := eraseSize
  partition := fun _ => some ⟨0, eraseSize.toNat⟩
  malloc := fun _ _ => true
  fails := fun _ => false
  debris := fun _ _ b => b

def imageFlash (image : List UInt8) : Flash where
  size := image.length
  bytes := blit (fun _ => 0xff) 0 image
  ops := 0
  accesses := []

theorem region_imageFlash (image : List UInt8) :
    region (imageFlash image).bytes 0 image.length = image :=
  region_blit (fun _ => 0xff) 0 image

theorem mrd_image_round_trip_sample :
    ∃ image, genMrd 128 sampleDescription = some image ∧
      ((modelGet (blockBoard 0x20000) (List.replicate 240 0) (imageFlash image)).1 : ℤ) =
        0x1234 := by
  have hworks : (blockBoard 0x20000).Works :=
    ⟨rfl, by simp [blockBoard], fun _ _ => rfl, fun _ => rfl⟩
  obtain ⟨image, hgen, -, hread⟩ := mrd_image_round_trip sampleDescription_inRange hworks
    (show 0 < 128 by decide) rfl (by decide)
    (show (blockBoard 0x20000).partition partNameMrd = some ⟨0, 0x20000⟩ from rfl) (by decide)
    (List.length_replicate ..)
  exact ⟨image, hgen, (hread (imageFlash image) (by simp [imageFlash])
    (region_imageFlash image)).2.2⟩

/-- For a block of 2 GiB and 1 KiB the offset of the MRD is negative as an
`ssize_t`, and the dummy is read. -/
theorem mrd_image_not_read :
    ∃ image, genMrd (2 ^ 21 + 1) sampleDescription = some image ∧
      region (imageFlash image).bytes 0 image.length = image ∧
      (mrdRead (blockBoard 0x80000400) (List.replicate 240 0) (imageFlash image)).1.2 =
        dummyMrd ∧
      (modelGet (blockBoard 0x80000400) (List.replicate 240 0) (imageFlash image)).1 = 0xffff := by
  have hoffset : mrdOffsetGet (blockBoard 0x80000400) < 0 := by
    decide
  obtain ⟨image, hgen⟩ := sampleDescription_inRange.exists_image (Nat.succ_pos (2 ^ 21))
  refine ⟨image, hgen, region_imageFlash image, ?_, ?_⟩
  · rw [mrdRead_refused hoffset]
  · unfold modelGet
    rw [bind_run, mrdRead_refused hoffset]
    exact show fromLE ((mrdLayout.get dummyMrd .featureBits).take 2) = 0xffff by decide

end Nwa50ax.Zyxel
