import Nwa50ax.Lib.Packed
import Nwa50ax.Zyxel.FlashPart

/-!
# Manufacturer related data

The MRD is the last part of the first block of its partition.  `mrd_read`
replaces an MRD that cannot be read by a dummy, and `atwe` writes what it has
read with another MAC address.
-/

namespace Nwa50ax.Zyxel

open ByteBuffer ByteStore StateProgram PackedStruct

/-! ## The structure -/

inductive MrdField
  | bspHeapBlkSize
  | bspHeapBlkCnt
  | hardwareVersion
  | serialNumber
  | reserved0
  | vendorName
  | productName
  | reserved4
  | reserved1
  | systemType
  | reserved2
  | featureBits
  | featureBit
  | reserved3
  | etherAddr
  | countryCode
  | areaCode
deriving DecidableEq

def MrdField.width : MrdField → ℕ
  | .bspHeapBlkSize | .bspHeapBlkCnt => 16
  | .hardwareVersion | .serialNumber | .reserved0 | .vendorName | .productName => 32
  | .reserved4 => 4
  | .reserved1 => 2
  | .systemType | .reserved2 => 1
  | .featureBits => 30
  | .featureBit | .reserved3 => 1
  | .etherAddr => 6
  | .countryCode | .areaCode => 1

def MrdField.order : List MrdField :=
  [.bspHeapBlkSize, .bspHeapBlkCnt, .hardwareVersion, .serialNumber, .reserved0, .vendorName,
    .productName, .reserved4, .reserved1, .systemType, .reserved2, .featureBits, .featureBit,
    .reserved3, .etherAddr, .countryCode, .areaCode]

theorem MrdField.nodup_order : MrdField.order.Nodup := by
  decide

theorem MrdField.mem_order (f : MrdField) : f ∈ MrdField.order := by
  cases f <;> decide

def mrdLayout : Layout MrdField :=
  ⟨MrdField.order, MrdField.width, MrdField.nodup_order, MrdField.mem_order⟩

def padded (width : ℕ) (text : List UInt8) : List UInt8 :=
  text ++ List.replicate (width - text.length) 0

def cString (text : String) : List UInt8 :=
  text.toList.map fun c => UInt8.ofNat c.toNat

def dummyMrdField : MrdField → List UInt8
  | .bspHeapBlkSize | .bspHeapBlkCnt => List.replicate 16 0
  | .hardwareVersion => padded 32 (cString "Zyxel dummy - dummy")
  | .serialNumber => padded 32 (cString "Z34131340 80-009-011DUMMY")
  | .reserved0 =>
      [0x00, 0x00, 0x06, 0x01, 0x02, 0x03, 0x04, 0x05, 0x06, 0x07, 0x08, 0x09, 0x10, 0x11, 0x12,
        0x13, 0x14, 0x15, 0x16, 0x17, 0x18, 0x19, 0x20, 0x00, 0x00, 0x02, 0x00, 0x00, 0x00, 0x10,
        0x00, 0x00]
  | .vendorName => padded 32 (cString "Zyxel Communications Corp.")
  | .productName => padded 32 (cString "dummy")
  | .reserved4 => [0x00, 0x00, 0x00, 0x00]
  | .reserved1 => [0xff, 0xff]
  | .systemType => [0x0a]
  | .reserved2 => [0xff]
  | .featureBits =>
      [0xff, 0xff, 0x00, 0x00, 0x00, 0x00, 0x00, 0x00, 0x00, 0x00, 0x00, 0x00, 0x00, 0x00, 0x00,
        0x00, 0x03, 0x00, 0x00, 0x00, 0x00, 0x00, 0x00, 0x00, 0x00, 0x00, 0x00, 0x00, 0x00, 0x00]
  | .featureBit => [0x00]
  | .reserved3 => [0xff]
  | .etherAddr => [0x00, 0x13, 0x49, 0x00, 0x00, 0x01]
  | .countryCode => [0xff]
  | .areaCode => [0x01]

def dummyMrd : List UInt8 :=
  mrdLayout.pack dummyMrdField

theorem length_dummyMrdField (f : MrdField) : (dummyMrdField f).length = mrdLayout.width f := by
  cases f <;> decide

theorem length_dummyMrd : dummyMrd.length = 240 :=
  mrdLayout.length_pack length_dummyMrdField

/-! ## Reading and writing the MRD -/

def partNameMrd : String := "mrd"

/-- `mrd_offset_get`; the difference is an `ssize_t`. -/
def mrdOffsetGet (board : Board) : ℤ :=
  if board.eraseSize = 0 then -1 else (board.eraseSize - 240).toInt

/-- `mrd_read` into a variable; returns its result and the variable. -/
def mrdRead (board : Board) (mrd : List UInt8) : FlashM (ℤ × List UInt8) := do
  let mrdOffset := mrdOffsetGet board
  if mrdOffset < 0 then
    return (mrdOffset, dummyMrd)
  else
    let (ret, mrd) ← flashPartRead board partNameMrd mrd (BitVec.ofInt 32 mrdOffset) 240
    return (ret, if ret < 0 then dummyMrd else mrd)

def mrdWrite (board : Board) (mrd : List UInt8) : FlashM ℤ := do
  let mrdOffset := mrdOffsetGet board
  if mrdOffset < 0 then
    return -1
  else
    let (ret, _) ← flashPartWrite board partNameMrd mrd (BitVec.ofInt 32 mrdOffset) 240
    return ret

/-! ## The MAC address -/

def hexDigit (c : UInt8) : Option ℕ :=
  if 48 ≤ c ∧ c ≤ 57 then some (c.toNat - 48)
  else if 65 ≤ c ∧ c ≤ 70 then some (c.toNat - 55)
  else if 97 ≤ c ∧ c ≤ 102 then some (c.toNat - 87)
  else none

def addHexDigits (result : U32) : List UInt8 → U32
  | [] => result
  | c :: text =>
      match hexDigit c with
      | none => result
      | some value => addHexDigits (result * 16 + BitVec.ofNat 32 value) text

/-- `simple_strtoul (cp, NULL, 16)`. -/
def simpleStrtoul16 : List UInt8 → U32
  | 48 :: 120 :: text => addHexDigits 0 text
  | 48 :: 88 :: text => addHexDigits 0 text
  | text => addHexDigits 0 text

/-- The six bytes of an address, each from two characters. -/
def macBytes (arg : List UInt8) : List UInt8 :=
  (List.range 6).map fun i => UInt8.ofNat (simpleStrtoul16 (slice arg (i * 2) 2)).toNat

inductive CmdRet
  | success
  | failure
  | usage
deriving DecidableEq

/-- `do_atwe` up to the reset; `mrd` is its variable before it is read. -/
def doAtwe (board : Board) (mrd : List UInt8) (argv : List (List UInt8)) : FlashM CmdRet :=
  match argv with
  | [_, arg] =>
      if arg.length ≠ 12 then
        return .usage
      else do
        let (_, mrd) ← mrdRead board mrd
        let ret ← mrdWrite board (mrdLayout.set mrd .etherAddr (macBytes arg))
        return if ret < 0 then .failure else .success
  | _ => return .usage

def modelGet (board : Board) (mrd : List UInt8) : FlashM ℕ := do
  let (_, mrd) ← mrdRead board mrd
  return fromLE ((mrdLayout.get mrd .featureBits).take 2)

/-! ## The block of the MRD -/

section Offset

variable {board : Board}

theorem mrdOffset_toNat (h : ¬mrdOffsetGet board < 0) :
    240 ≤ board.eraseSize.toNat ∧ board.eraseSize.toNat < 2 ^ 31 + 240 ∧
      (BitVec.ofInt 32 (mrdOffsetGet board)).toNat = board.eraseSize.toNat - 240 := by
  unfold mrdOffsetGet at h ⊢
  split at h
  case isTrue => exact absurd (by decide) h
  case isFalse hzero =>
      rw [if_neg hzero, BitVec.ofInt_toInt]
      have hlt := board.eraseSize.isLt
      have hsize : (240 : U32).toNat = 240 := rfl
      rw [BitVec.toInt_eq_toNat_cond] at h
      rw [BitVec.toNat_sub, hsize] at h ⊢
      split at h <;> omega

theorem mrd_blockLength {offset : U32} (hmin : 240 ≤ board.eraseSize.toNat)
    (hmax : board.eraseSize.toNat < 2 ^ 31 + 240)
    (hoffset : offset.toNat = board.eraseSize.toNat - 240) :
    (blockLength board.eraseSize offset 240).toNat =
      if board.eraseSize.toNat ≤ 2 ^ 31 then board.eraseSize.toNat else 0 := by
  have hone : (1 : U32).toNat = 1 := rfl
  have hsize : (240 : U32).toNat = 240 := rfl
  have hsum : (offset + 240 + board.eraseSize - 1).toNat =
      (2 * board.eraseSize.toNat - 1) % 2 ^ 32 := by
    rw [BitVec.toNat_sub, BitVec.toNat_add, BitVec.toNat_add, hoffset, hone, hsize]
    omega
  rw [blockLength, BitVec.toNat_mul, BitVec.toNat_udiv, hsum]
  generalize board.eraseSize.toNat = block at *
  split
  case isTrue hle =>
      have hdiv : (2 * block - 1) / block = 1 := by
        rw [Nat.div_eq_iff (by omega)]
        omega
      rw [Nat.mod_eq_of_lt (show 2 * block - 1 < 2 ^ 32 by omega), hdiv]
      omega
  case isFalse hgt =>
      rw [Nat.div_eq_of_lt (by omega), Nat.zero_mul, Nat.zero_mod]

end Offset

def mrdOnFlash (board : Board) (part : Partition) (flash : Flash) : List UInt8 :=
  region flash.bytes (part.off + (board.eraseSize.toNat - 240)) 240

section Success

variable {board : Board} {part : Partition} {flash : Flash} {mrd : List UInt8}

theorem mrdRead_eq (hoffset : ¬mrdOffsetGet board < 0) :
    let read := flashPartRead board partNameMrd mrd (BitVec.ofInt 32 (mrdOffsetGet board)) 240 flash
    mrdRead board mrd flash =
      ((read.1.1, if read.1.1 < 0 then dummyMrd else read.1.2), read.2) := by
  unfold mrdRead
  dsimp only
  rw [ite_run, if_neg hoffset]
  rfl

theorem mrdWrite_eq (hoffset : ¬mrdOffsetGet board < 0) :
    let write := flashPartWrite board partNameMrd mrd (BitVec.ofInt 32 (mrdOffsetGet board)) 240 flash
    mrdWrite board mrd flash = (write.1.1, write.2) := by
  unfold mrdWrite
  dsimp only
  rw [ite_run, if_neg hoffset]
  rfl

theorem mrdRead_refused (hoffset : mrdOffsetGet board < 0) :
    mrdRead board mrd flash = ((mrdOffsetGet board, dummyMrd), flash) := by
  unfold mrdRead
  dsimp only
  rw [ite_run, if_pos hoffset]
  rfl

theorem mrdWrite_refused (hoffset : mrdOffsetGet board < 0) :
    mrdWrite board mrd flash = (-1, flash) := by
  unfold mrdWrite
  dsimp only
  rw [ite_run, if_pos hoffset]
  rfl

theorem mrdRead_same (board : Board) (mrd : List UInt8) (flash : Flash) :
    flash.Same (mrdRead board mrd flash).2 := by
  by_cases hoffset : mrdOffsetGet board < 0
  · rw [mrdRead_refused hoffset]
    exact ⟨rfl, rfl⟩
  · rw [mrdRead_eq hoffset]
    exact flashPartRead_same ..

theorem mrdRead_failure (h : (mrdRead board mrd flash).1.1 < 0) :
    (mrdRead board mrd flash).1.2 = dummyMrd := by
  by_cases hoffset : mrdOffsetGet board < 0
  · rw [mrdRead_refused hoffset]
  · rw [mrdRead_eq hoffset] at h ⊢
    exact if_pos h

theorem mrdRead_success (hpart : board.partition partNameMrd = some part)
    (hblock : board.eraseSize.toNat ≤ 2 ^ 31) (hmrd : mrd.length = 240)
    (h : 0 ≤ (mrdRead board mrd flash).1.1) :
    (mrdRead board mrd flash).1.2 = mrdOnFlash board part flash := by
  by_cases hoffset : mrdOffsetGet board < 0
  · rw [mrdRead_refused hoffset] at h
    exact absurd h (not_le.mpr hoffset)
  · rw [mrdRead_eq hoffset] at h ⊢
    dsimp only at h ⊢
    rw [if_neg (not_lt.mpr h)]
    obtain ⟨hmin, hmax, htoNat⟩ := mrdOffset_toNat hoffset
    have hlength := mrd_blockLength hmin hmax htoNat
    rw [if_pos hblock] at hlength
    unfold flashPartRead at h ⊢
    have hcall := flashPartRwCommon_success hpart h
    rw [hcall] at h ⊢
    rw [accessBlocks_read_success h, hlength, htoNat, slice_region _ _ (by simp; omega),
      overwrite_all (by rw [hmrd, length_region]; rfl)]
    rfl

/-- What a write that succeeds says about the board, and what it has done to the
block. -/
structure MrdWritten (board : Board) (part : Partition) (mrd : List UInt8) (flash flash' : Flash) :
    Prop where
  offset : ¬mrdOffsetGet board < 0
  admits : Admits board part (BitVec.ofInt 32 (mrdOffsetGet board)) 240
  inside : board.eraseSize.toNat ≤ 2 ^ 31 → part.off + board.eraseSize.toNat ≤ flash.size
  bytes : flash'.bytes =
    if board.eraseSize.toNat ≤ 2 ^ 31 then
      blit flash.bytes part.off
        ((overwrite (region flash.bytes part.off board.eraseSize.toNat)
          (board.eraseSize.toNat - 240) (mrd.take 240)).take board.eraseSize.toNat)
    else flash.bytes

theorem mrdWrite_written (hpart : board.partition partNameMrd = some part)
    (h : 0 ≤ (mrdWrite board mrd flash).1) :
    MrdWritten board part mrd flash (mrdWrite board mrd flash).2 := by
  by_cases hoffset : mrdOffsetGet board < 0
  · rw [mrdWrite_refused hoffset] at h
    exact absurd h (show ¬(0 : ℤ) ≤ -1 by decide)
  · rw [mrdWrite_eq hoffset] at h ⊢
    dsimp only at h ⊢
    obtain ⟨hmin, hmax, htoNat⟩ := mrdOffset_toNat hoffset
    have hlength := mrd_blockLength hmin hmax htoNat
    unfold flashPartWrite at h ⊢
    have hadmits := flashPartRwCommon_admitted hpart h
    have hcall := flashPartRwCommon_success hpart h
    rw [hcall] at h ⊢
    have hin := accessBlocks_inside h
    refine ⟨hoffset, hadmits, fun hblock => ?_, ?_⟩
    · rw [hlength, if_pos hblock] at hin
      exact hin
    · rw [accessBlocks_write_success h, hlength, htoNat]
      split
      · rfl
      · funext i
        exact blit_outside (by simp; omega)

theorem mrdWrite_success (hpart : board.partition partNameMrd = some part)
    (hblock : board.eraseSize.toNat ≤ 2 ^ 31) (hmrd : mrd.length = 240)
    (h : 0 ≤ (mrdWrite board mrd flash).1) :
    mrdOnFlash board part (mrdWrite board mrd flash).2 = mrd := by
  have hwritten := mrdWrite_written hpart h
  have hmin := (mrdOffset_toNat hwritten.offset).1
  have hbytes := hwritten.bytes
  have hin : board.eraseSize.toNat - 240 + mrd.length ≤ board.eraseSize.toNat := by omega
  rw [if_pos hblock, List.take_of_length_le hmrd.le,
    List.take_of_length_le (by rw [length_overwrite (by simpa using hin)]; simp),
    blit_overwrite _ _ hin] at hbytes
  rw [mrdOnFlash, hbytes, ← hmrd, region_blit]

theorem mrdRead_iff (hpart : board.partition partNameMrd = some part)
    (hoffset : ¬mrdOffsetGet board < 0)
    (hadmits : Admits board part (BitVec.ofInt 32 (mrdOffsetGet board)) 240)
    (hblock : board.eraseSize.toNat ≤ 2 ^ 31)
    (hin : part.off + board.eraseSize.toNat ≤ flash.size) :
    0 ≤ (mrdRead board mrd flash).1.1 ↔
      board.malloc flash.ops board.eraseSize = true ∧ board.fails flash.ops = false := by
  obtain ⟨hmin, hmax, htoNat⟩ := mrdOffset_toNat hoffset
  have hlength := mrd_blockLength hmin hmax htoNat
  rw [if_pos hblock] at hlength
  rw [mrdRead_eq hoffset]
  unfold flashPartRead
  dsimp only
  rw [hadmits.call hpart, BitVec.eq_of_toNat_eq hlength]
  split
  case isTrue hmalloc => rw [accessBlocks_read_iff hin, hmalloc, eq_self_iff_true, true_and]
  case isFalse hmalloc =>
      exact ⟨fun h => absurd h (show ¬0 ≤ enomem by decide), fun h => absurd h.1 hmalloc⟩

theorem mrdRead_variable (hpart : board.partition partNameMrd = some part)
    (hoffset : ¬mrdOffsetGet board < 0)
    (hadmits : Admits board part (BitVec.ofInt 32 (mrdOffsetGet board)) 240)
    (hblock : board.eraseSize.toNat ≤ 2 ^ 31)
    (hin : part.off + board.eraseSize.toNat ≤ flash.size) (hmrd : mrd.length = 240) :
    (mrdRead board mrd flash).1.2 =
      if board.malloc flash.ops board.eraseSize = true ∧ board.fails flash.ops = false then
        mrdOnFlash board part flash
      else dummyMrd := by
  have hiff : 0 ≤ (mrdRead board mrd flash).1.1 ↔ _ :=
    mrdRead_iff hpart hoffset hadmits hblock hin
  split
  case isTrue hreads => exact mrdRead_success hpart hblock hmrd (hiff.mpr hreads)
  case isFalse hfails => exact mrdRead_failure (not_le.mp fun hret => hfails (hiff.mp hret))

theorem length_macBytes (arg : List UInt8) : (macBytes arg).length = 6 := by
  simp [macBytes]

theorem doAtwe_success {name arg : List UInt8}
    (h : (doAtwe board mrd [name, arg] flash).1 = .success) :
    let read := mrdRead board mrd flash
    let write := mrdWrite board (mrdLayout.set read.1.2 .etherAddr (macBytes arg)) read.2
    0 ≤ write.1 ∧ (doAtwe board mrd [name, arg] flash).2 = write.2 := by
  unfold doAtwe at h ⊢
  dsimp only at h ⊢
  rw [ite_run] at h ⊢
  split at h
  case isTrue => cases h
  case isFalse hlength =>
      rw [if_neg hlength]
      rw [bind_run, bind_run] at h
      refine ⟨not_lt.mp fun hneg => ?_, rfl⟩
      rw [if_pos hneg] at h
      cases h

end Success

/-- An `atwe` that succeeds keeps all fields but the address if and only if its
first read has succeeded, for every pattern of failures of the other operations;
otherwise the fields are those of the dummy.  For blocks of more than 2 GiB nothing
is written. -/
theorem atwe_keeps_mrd (board : Board) {part : Partition}
    (hpart : board.partition partNameMrd = some part) (flash : Flash) {mrd : List UInt8}
    (hmrd : mrd.length = 240) (name arg : List UInt8)
    (hdone : (doAtwe board mrd [name, arg] flash).1 = .success) :
    let before := mrdOnFlash board part flash
    let after := mrdOnFlash board part (doAtwe board mrd [name, arg] flash).2
    ((∀ f, f ≠ .etherAddr → mrdLayout.get after f = mrdLayout.get before f) ↔
      (board.malloc flash.ops board.eraseSize = true ∧ board.fails flash.ops = false) ∨
        2 ^ 31 < board.eraseSize.toNat ∨
        ∀ f, f ≠ .etherAddr → mrdLayout.get before f = dummyMrdField f) ∧
      (board.eraseSize.toNat ≤ 2 ^ 31 → mrdLayout.get after .etherAddr = macBytes arg) := by
  obtain ⟨hwrite, hafter⟩ := doAtwe_success hdone
  have hsame := mrdRead_same board mrd flash
  have hwritten := mrdWrite_written hpart hwrite
  dsimp only
  rw [hafter]
  rcases le_or_gt board.eraseSize.toNat (2 ^ 31) with hblock | hwrapped
  · have hin : part.off + board.eraseSize.toNat ≤ flash.size := by
      rw [← hsame.size]
      exact hwritten.inside hblock
    have hvariable :=
      mrdRead_variable hpart hwritten.offset hwritten.admits hblock hin hmrd
    have haddr : (macBytes arg).length = mrdLayout.width .etherAddr := length_macBytes arg
    have hlength : (mrdRead board mrd flash).1.2.length = mrdLayout.sizeof := by
      rw [hvariable]
      split
      · exact length_region ..
      · exact length_dummyMrd
    rw [mrdWrite_success hpart hblock (Layout.length_set hlength haddr) hwrite]
    refine ⟨?_, fun _ => Layout.get_set_self hlength haddr⟩
    have hothers : ∀ f, f ≠ MrdField.etherAddr →
        mrdLayout.get (mrdLayout.set (mrdRead board mrd flash).1.2 .etherAddr (macBytes arg)) f =
          mrdLayout.get (mrdRead board mrd flash).1.2 f :=
      fun f hf => Layout.get_set_of_ne hlength haddr hf
    rw [hvariable] at hothers ⊢
    split at hothers
    case isTrue hreads =>
        rw [if_pos hreads]
        exact ⟨fun _ => .inl hreads, fun _ => hothers⟩
    case isFalse hfails =>
        rw [if_neg hfails]
        have hdummy : ∀ f, mrdLayout.get dummyMrd f = dummyMrdField f :=
          Layout.get_pack length_dummyMrdField
        constructor
        · intro hkept
          right
          right
          intro f hf
          rw [← hkept f hf, hothers f hf, hdummy]
        · rintro (hreads | hwrapped | hbefore)
          · exact absurd hreads hfails
          · exact absurd hwrapped (not_lt.mpr hblock)
          · intro f hf
            rw [hothers f hf, hdummy, hbefore f hf]
  · have hbytes := hwritten.bytes
    rw [if_neg (not_le.mpr hwrapped), hsame.bytes] at hbytes
    rw [show mrdOnFlash board part _ = mrdOnFlash board part flash by
      rw [mrdOnFlash, hbytes, mrdOnFlash]]
    exact ⟨⟨fun _ => .inr (.inl hwrapped), fun _ f _ => rfl⟩,
      fun hblock => absurd hblock (not_le.mpr hwrapped)⟩

/-! ## An `atwe` on a small flash -/

def mrdBoard (fails : ℕ → Bool) : Board where
  hasFlash := true
  eraseSize := 256
  partition := fun _ => some ⟨0, 256⟩
  malloc := fun _ _ => true
  fails := fails
  debris := fun _ _ b => b

def plainFlash : Flash where
  size := 256
  bytes := fun _ => 0x31
  ops := 0
  accesses := []

def sampleMac : List UInt8 :=
  cString "020304050607"

theorem atwe_keeps_mrd_plain :
    mrdLayout.get (mrdOnFlash (mrdBoard fun _ => false) ⟨0, 256⟩
      (doAtwe (mrdBoard fun _ => false) (List.replicate 240 0) [[], sampleMac] plainFlash).2)
        .serialNumber =
      mrdLayout.get (mrdOnFlash (mrdBoard fun _ => false) ⟨0, 256⟩ plainFlash) .serialNumber :=
  (atwe_keeps_mrd (mrdBoard fun _ => false) rfl plainFlash (List.length_replicate ..) [] sampleMac
    (by decide +kernel)).1.mpr (.inl ⟨rfl, rfl⟩) .serialNumber (by decide)

/-- The first read fails and all else succeeds: the dummy is written with the
new address. -/
theorem atwe_writes_dummy :
    let board := mrdBoard fun op => op == 0
    let run := doAtwe board (List.replicate 240 0) [[], sampleMac] plainFlash
    run.1 = .success ∧
      mrdLayout.get (mrdOnFlash board ⟨0, 256⟩ plainFlash) .serialNumber =
        List.replicate 32 0x31 ∧
      mrdLayout.get (mrdOnFlash board ⟨0, 256⟩ run.2) .serialNumber =
        padded 32 (cString "Z34131340 80-009-011DUMMY") := by
  decide +kernel

end Nwa50ax.Zyxel
