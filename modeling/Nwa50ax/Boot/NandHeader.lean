import Nwa50ax.Boot.DualImage
import Nwa50ax.Nmbm.TableImage

/-!
# The header of the first stage

The boot ROM of the MT7621 loads the first stage (SPL) from the beginning of the
flash.  Its header is that of a legacy image, whose name field holds a second
header with a checksum of its own.  `mtk_spl_pad` and `mt7621_set_header` are
the tools that build such an image; `mt7621_verify_header` checks it.

Both checksums cover the same 64 bytes.  The inner one is computed while both
checksum fields are zero, the outer one after the inner one has been set.
-/

namespace Nwa50ax.Boot

open ByteBuffer

abbrev U32 := BitVec 32

/-! ## Checksums -/

def nandCrcPolynomial : U32 := 0x04c11db7

/-- An entry of the table of `crc32c_be_init`. -/
def crc32cBeTable (i : UInt8) : U32 :=
  (List.range 8).foldl
    (fun v _ => (v <<< 1) ^^^ if v.msb then nandCrcPolynomial else 0)
    (BitVec.ofNat 32 i.toNat <<< 24)

def crc32cBeCal (crc : U32) (data : List UInt8) : U32 :=
  data.foldl
    (fun crc byte => crc32cBeTable (UInt8.ofNat (crc >>> 24).toNat ^^^ byte) ^^^ (crc <<< 8)) crc

/-- The bytes of `length`, up to its last one that is not zero; an `int` has
four. -/
def lengthBytes : ℕ → ℕ → List UInt8
  | 0, _ => []
  | n + 1, length => if length = 0 then [] else UInt8.ofNat length :: lengthBytes n (length / 256)

/-- `crc32_cal`, which the tool and the boot loader have in two copies. -/
def crc32Cal (data : List UInt8) : U32 :=
  ~~~(crc32cBeCal (crc32cBeCal 0 data) (lengthBytes 4 data.length))

theorem crc32_lt (bytes : List UInt8) : crc32 bytes < 2 ^ 32 :=
  Nat.xor_lt_two_pow (Nmbm.nmbmCrc32_lt (by decide) bytes) (by decide)

/-! ## Checking a header -/

/-- `ih_hcrc`, and `crc` of the header in `ih_name`. -/
def hcrcOff : ℕ := 4
def nandCrcOff : ℕ := 60

def zeroWord : List UInt8 := [0, 0, 0, 0]

def clearHcrc (hdr : List UInt8) : List UInt8 :=
  overwrite (hdr.take imageHeaderBytes) hcrcOff zeroWord

def clearBoth (hdr : List UInt8) : List UInt8 :=
  overwrite (clearHcrc hdr) nandCrcOff zeroWord

/-- The inner checksum, which tells a first stage from other images. -/
def checkNandCrc (hdr : List UInt8) : Bool :=
  (crc32Cal (clearBoth hdr)).toNat = headerWord hdr nandCrcOff

def headerValid (hdr : List UInt8) : Bool :=
  headerWord hdr 0 = imageMagic && imageCheckHcrc hdr

def mt7621VerifyHeader (image : List UInt8) : Bool :=
  imageCheckHcrc (image.take imageHeaderBytes) && checkNandCrc (image.take imageHeaderBytes)

/-! ## The configuration record -/

def romCfgMagic : ℕ := 0x31323637

def romCfgOff : ℕ := 0x40

def romCfgBytes : ℕ := 12

structure RomCfg where
  magic : U32
  size : U32
  align : U32
deriving DecidableEq

def RomCfg.ofBytes (bytes : List UInt8) : RomCfg where
  magic := BitVec.ofNat 32 (word32 bytes 0)
  size := BitVec.ofNat 32 (word32 bytes 4)
  align := BitVec.ofNat 32 (word32 bytes 8)

def RomCfg.Valid (cfg : RomCfg) : Prop :=
  cfg.magic.toNat = romCfgMagic

instance (cfg : RomCfg) : Decidable cfg.Valid :=
  inferInstanceAs (Decidable (_ = _))

/-! ## Building an image -/

def mtkSplPad (buff : List UInt8) : Option (List UInt8) :=
  if word32 buff romCfgOff = romCfgMagic then
    some (overwrite buff (romCfgOff + 4) (toLE 4 buff.length))
  else
    none

def nandName : List UInt8 :=
  [0x4d, 0x54, 0x37, 0x36, 0x32, 0x31, 0x20, 0x4e, 0x41, 0x4e, 0x44] ++ List.replicate 21 0

def setStageHeader (addr : U32) (body : List UInt8) : List UInt8 :=
  overwrite (overwrite body 8 (toBE 4 addr.toNat)) 12 (toBE 4 body.length)

/-- The members of the header except for the two checksums, in the order in
which they are set: first those before the name. -/
def plainFields (addr ep : U32) (body : List UInt8) : List (ℕ × List UInt8) :=
  [(8, toBE 4 0), (12, toBE 4 body.length), (16, toBE 4 addr.toNat), (20, toBE 4 ep.toNat),
    -- `IH_OS_U_BOOT`, `IH_ARCH_MIPS`, `IH_TYPE_STANDALONE`, `IH_COMP_NONE`
    (28, [17, 5, 1, 0]), (24, toBE 4 (crc32 body))]

def store (hdr : List UInt8) (field : ℕ × List UInt8) : List UInt8 :=
  overwrite hdr field.1 field.2

def setFields (addr ep : U32) (hdr body : List UInt8) : List UInt8 :=
  let hdr := overwrite hdr 0 (toBE 4 imageMagic)
  let hdr := (plainFields addr ep body).foldl store hdr
  let hdr := overwrite hdr 32 nandName
  overwrite hdr 48 (toBE 4 imageHeaderBytes)

def sealHeader (hdr : List UInt8) : List UInt8 :=
  let hdr := overwrite hdr nandCrcOff (toBE 4 (crc32Cal hdr).toNat)
  overwrite hdr hcrcOff (toBE 4 (crc32 hdr))

def mt7621SetHeader (addr ep : U32) (file : List UInt8) : List UInt8 :=
  let body := setStageHeader addr (file.drop imageHeaderBytes)
  sealHeader (setFields addr ep (file.take imageHeaderBytes) body) ++ body

/-! ## Sealed headers -/

structure Blank (hdr : List UInt8) : Prop where
  length : hdr.length = imageHeaderBytes
  magic : headerWord hdr 0 = imageMagic
  hcrc : slice hdr hcrcOff 4 = zeroWord
  nandCrc : slice hdr nandCrcOff 4 = zeroWord

theorem headerWord_of_slice {hdr : List UInt8} {off word : ℕ} (h : slice hdr off 4 = toBE 4 word)
    (hword : word < 2 ^ 32) : headerWord hdr off = word := by
  rw [headerWord, h]
  exact fromBE_toBE_of_lt hword

section Seal

variable {hdr : List UInt8} (h : Blank hdr)

include h

theorem Blank.inner_length :
    (overwrite hdr nandCrcOff (toBE 4 (crc32Cal hdr).toNat)).length = imageHeaderBytes := by
  have hlen := h.length
  unfold imageHeaderBytes at hlen ⊢
  rw [length_overwrite (by rw [length_toBE, hlen]; decide), hlen]

theorem Blank.length_seal : (sealHeader hdr).length = imageHeaderBytes := by
  have hlen := h.inner_length
  unfold sealHeader
  dsimp only
  rw [length_overwrite (by rw [length_toBE, hlen]; decide), hlen]

theorem Blank.clearHcrc_seal :
    clearHcrc (sealHeader hdr) = overwrite hdr nandCrcOff (toBE 4 (crc32Cal hdr).toNat) := by
  have hlen := h.length
  have hinner := h.inner_length
  have hzero : slice (overwrite hdr nandCrcOff (toBE 4 (crc32Cal hdr).toNat)) hcrcOff 4 =
      zeroWord := by
    rw [slice_overwrite_before (by rw [hlen]; decide) (by decide), h.hcrc]
  have htake : (sealHeader hdr).take imageHeaderBytes = sealHeader hdr :=
    List.take_of_length_le h.length_seal.le
  unfold clearHcrc
  rw [htake]
  unfold sealHeader
  dsimp only
  rw [overwrite_overwrite (by rw [hinner]; decide) (by simp [zeroWord]), ← hzero,
    overwrite_slice (by rw [hinner]; decide)]

theorem Blank.clearBoth_seal : clearBoth (sealHeader hdr) = hdr := by
  have hlen := h.length
  unfold clearBoth
  rw [h.clearHcrc_seal, overwrite_overwrite (by rw [hlen]; decide) (by simp [zeroWord]),
    ← h.nandCrc, overwrite_slice (by rw [hlen]; decide)]

theorem Blank.checkHcrc_seal : imageCheckHcrc (sealHeader hdr) = true := by
  have hinner := h.inner_length
  have hword : headerWord (sealHeader hdr) hcrcOff =
      crc32 (overwrite hdr nandCrcOff (toBE 4 (crc32Cal hdr).toNat)) := by
    refine headerWord_of_slice ?_ (crc32_lt _)
    have hslice := slice_overwrite (toBE 4 (crc32 (overwrite hdr nandCrcOff
      (toBE 4 (crc32Cal hdr).toNat)))) (show hcrcOff ≤ _ by rw [hinner]; decide)
    rw [length_toBE] at hslice
    exact hslice
  have hclear := h.clearHcrc_seal
  unfold imageCheckHcrc
  rw [decide_eq_true_eq]
  exact (congrArg crc32 hclear).trans hword.symm

theorem Blank.checkNandCrc_seal : checkNandCrc (sealHeader hdr) = true := by
  have hlen := h.length
  have hinner := h.inner_length
  have hword : headerWord (sealHeader hdr) nandCrcOff = (crc32Cal hdr).toNat := by
    refine headerWord_of_slice ?_ (crc32Cal hdr).isLt
    unfold sealHeader
    dsimp only
    rw [slice_overwrite_behind (by rw [hinner]; decide) (by simp [hcrcOff, nandCrcOff])]
    have hslice := slice_overwrite (toBE 4 (crc32Cal hdr).toNat)
      (show nandCrcOff ≤ hdr.length by rw [hlen]; decide)
    rw [length_toBE] at hslice
    exact hslice
  unfold checkNandCrc
  rw [decide_eq_true_eq, h.clearBoth_seal, hword]

end Seal

/-! ## Images of the tool -/

def zeroHeader : List UInt8 :=
  List.replicate imageHeaderBytes 0

section Fields

variable {hdr : List UInt8} {fields : List (ℕ × List UInt8)}

theorem length_foldl_store (h : ∀ f ∈ fields, f.1 + f.2.length ≤ hdr.length) :
    (fields.foldl store hdr).length = hdr.length := by
  induction fields generalizing hdr with
  | nil => rfl
  | cons f fields ih =>
      have hlen : (store hdr f).length = hdr.length :=
        length_overwrite (h f List.mem_cons_self)
      rw [List.foldl_cons, ih fun f' hf' => hlen.symm ▸ h f' (List.mem_cons_of_mem _ hf'), hlen]

theorem slice_foldl_store {pos len : ℕ} (h : ∀ f ∈ fields, f.1 + f.2.length ≤ hdr.length)
    (hapart : ∀ f ∈ fields, pos + len ≤ f.1 ∨ f.1 + f.2.length ≤ pos) :
    slice (fields.foldl store hdr) pos len = slice hdr pos len := by
  induction fields generalizing hdr with
  | nil => rfl
  | cons f fields ih =>
      have hin := h f List.mem_cons_self
      have hlen : (store hdr f).length = hdr.length := length_overwrite hin
      rw [List.foldl_cons, ih (fun f' hf' => hlen.symm ▸ h f' (List.mem_cons_of_mem _ hf'))
        fun f' hf' => hapart f' (List.mem_cons_of_mem _ hf')]
      rcases hapart f List.mem_cons_self with hbefore | hbehind
      · exact slice_overwrite_before (by omega) hbefore
      · exact slice_overwrite_behind (by omega) hbehind

end Fields

theorem plainFields_range (addr ep : U32) (body : List UInt8) :
    ∀ f ∈ plainFields addr ep body, 8 ≤ f.1 ∧ f.1 + f.2.length ≤ 32 := by
  simp [plainFields]

theorem setFields_blank (addr ep : U32) (body : List UInt8) :
    Blank (setFields addr ep zeroHeader body) := by
  have hzero : zeroHeader.length = 64 := rfl
  have hname : nandName.length = 32 := rfl
  have hmagicLen : (overwrite zeroHeader 0 (toBE 4 imageMagic)).length = 64 :=
    length_overwrite (by rw [length_toBE, hzero]; decide)
  have hrange := plainFields_range addr ep body
  have hin : ∀ f ∈ plainFields addr ep body,
      f.1 + f.2.length ≤ (overwrite zeroHeader 0 (toBE 4 imageMagic)).length := by
    intro f hf
    have hf' := hrange f hf
    omega
  have hplainLen := length_foldl_store hin
  rw [hmagicLen] at hplainLen
  have hlow : ∀ pos, pos + 4 ≤ 8 →
      slice (setFields addr ep zeroHeader body) pos 4 =
        slice (overwrite zeroHeader 0 (toBE 4 imageMagic)) pos 4 := by
    intro pos hpos
    unfold setFields
    dsimp only
    rw [slice_overwrite_before (by rw [length_overwrite (by omega)]; omega) (by omega),
      slice_overwrite_before (by omega) (by omega),
      slice_foldl_store hin fun f hf => .inl (hpos.trans (hrange f hf).1)]
  refine ⟨?_, headerWord_of_slice ?_ (by decide), ?_, ?_⟩
  · unfold setFields
    dsimp only
    rw [length_overwrite (by rw [length_overwrite (by omega), length_toBE]; omega),
      length_overwrite (by omega), hplainLen]
    rfl
  · rw [hlow 0 (by decide)]
    rfl
  · rw [hlow hcrcOff (by decide)]
    rfl
  · -- the name ends with zeros, and only the stage offset is stored over it
    unfold setFields
    dsimp only
    rw [slice_overwrite_behind (by rw [length_overwrite (by omega)]; omega) (by decide)]
    have hstored := slice_overwrite nandName
      (show 32 ≤ ((plainFields addr ep body).foldl store
        (overwrite zeroHeader 0 (toBE 4 imageMagic))).length by omega)
    have hinside := congrArg (fun bytes => slice bytes 28 4) hstored
    rw [slice_slice (by decide)] at hinside
    exact hinside

section Tool

variable (addr ep : U32) (bin : List UInt8)

theorem mt7621SetHeader_eq :
    mt7621SetHeader addr ep (zeroHeader ++ bin) =
      sealHeader (setFields addr ep zeroHeader (setStageHeader addr bin)) ++
        setStageHeader addr bin := by
  unfold mt7621SetHeader
  dsimp only
  rw [List.drop_left' (by rfl), List.take_left' (by rfl)]

theorem length_setStageHeader (h : 16 ≤ bin.length) :
    (setStageHeader addr bin).length = bin.length := by
  have hfirst : (overwrite bin 8 (toBE 4 addr.toNat)).length = bin.length :=
    length_overwrite (by rw [length_toBE]; omega)
  rw [setStageHeader, length_overwrite (by rw [hfirst, length_toBE]; omega), hfirst]

theorem slice_setStageHeader (h : 16 ≤ bin.length) {pos : ℕ} (hpos : 16 ≤ pos) (len : ℕ) :
    slice (setStageHeader addr bin) pos len = slice bin pos len := by
  have hfirst : (overwrite bin 8 (toBE 4 addr.toNat)).length = bin.length :=
    length_overwrite (by rw [length_toBE]; omega)
  rw [setStageHeader, slice_overwrite_behind (by omega) (by rw [length_toBE]; omega),
    slice_overwrite_behind (by omega) (by rw [length_toBE]; omega)]

theorem take_mt7621SetHeader :
    (mt7621SetHeader addr ep (zeroHeader ++ bin)).take imageHeaderBytes =
      sealHeader (setFields addr ep zeroHeader (setStageHeader addr bin)) := by
  rw [mt7621SetHeader_eq, List.take_left' (setFields_blank ..).length_seal]

theorem mt7621VerifyHeader_set :
    mt7621VerifyHeader (mt7621SetHeader addr ep (zeroHeader ++ bin)) = true := by
  have hblank := setFields_blank addr ep (setStageHeader addr bin)
  unfold mt7621VerifyHeader
  rw [take_mt7621SetHeader, hblank.checkHcrc_seal, hblank.checkNandCrc_seal]
  rfl

end Tool

end Nwa50ax.Boot
