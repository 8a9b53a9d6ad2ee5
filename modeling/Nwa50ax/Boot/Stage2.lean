import Nwa50ax.Boot.NandHeader
import Nwa50ax.Lib.Search
import Nwa50ax.Lib.Store

/-!
# The second stage on the flash

The first stage looks for the second one behind itself: right behind its own
end, and then at multiples of the alignment in its configuration record
(`spl_mtk_nand_load_image`).  The boot loader that is to be upgraded looks for
the same image with `check_mtk_stock_stage2_info`, and `write_bootloader`
decides from the result where a new second stage goes.

Offsets are 32 bits wide in both programs.  The searches never make more than
`maxUBootSize` rounds, whatever the alignment is.
-/

namespace Nwa50ax.Boot

open ByteBuffer ByteStore Search

/-! ## Alignment -/

def align (x a : U32) : U32 :=
  (x + (a - 1)) &&& ~~~(a - 1)

section Align

variable {x a : U32} {k : ℕ}

theorem mask_mod (hdvd : 2 ^ k ∣ a.toNat) (ha : a ≠ 0) :
    (a - 1).toNat % 2 ^ k = 2 ^ k - 1 := by
  have hpos : 0 < a.toNat := by
    rw [Nat.pos_iff_ne_zero]
    intro hzero
    exact ha (BitVec.eq_of_toNat_eq hzero)
  have hsub : (a - 1).toNat = a.toNat - 1 := by
    have hone : (1 : U32).toNat = 1 := rfl
    rw [BitVec.toNat_sub_of_le (by rw [BitVec.le_def, hone]; exact hpos), hone]
  obtain ⟨q, hq⟩ := hdvd
  have hqpos : 0 < q := by
    rw [Nat.pos_iff_ne_zero]
    rintro rfl
    omega
  obtain ⟨q, rfl⟩ := Nat.exists_eq_succ_of_ne_zero hqpos.ne'
  have hpow := Nat.two_pow_pos k
  have hvalue : a.toNat - 1 = (2 ^ k - 1) + 2 ^ k * q := by
    rw [hq, Nat.mul_succ]
    omega
  rw [hsub, hvalue, Nat.add_mul_mod_self_left, Nat.mod_eq_of_lt (by omega)]

theorem dvd_align (hdvd : 2 ^ k ∣ a.toNat) (ha : a ≠ 0) :
    2 ^ k ∣ (align x a).toNat := by
  have hmask := mask_mod hdvd ha
  rw [Nat.dvd_iff_mod_eq_zero]
  apply Nat.eq_of_testBit_eq
  intro i
  rw [Nat.testBit_mod_two_pow, Nat.zero_testBit]
  by_cases hi : i < k
  · have hbit : (a - 1).toNat.testBit i = true := by
      have hlow : ((a - 1).toNat % 2 ^ k).testBit i = (2 ^ k - 1).testBit i := by rw [hmask]
      rw [Nat.testBit_mod_two_pow, Nat.testBit_two_pow_sub_one] at hlow
      simpa [hi] using hlow
    have hnot : (align x a).toNat.testBit i = false := by
      have hset : (a - 1).getLsbD i = true := hbit
      show (align x a).getLsbD i = false
      unfold align
      rw [BitVec.getLsbD_and, BitVec.getLsbD_not, hset]
      simp
    simp [hnot]
  · simp [hi]

theorem and_not_eq_sub (v m : U32) : v &&& ~~~m = v - (v &&& m) := by
  have hdisjoint : (v &&& ~~~m) &&& (v &&& m) = 0#32 := by
    ext i
    simp only [BitVec.getElem_and, BitVec.getElem_not, BitVec.getElem_zero]
    cases v[i] <;> cases m[i] <;> rfl
  have hor : (v &&& ~~~m) ||| (v &&& m) = v := by
    ext i
    simp only [BitVec.getElem_or, BitVec.getElem_and, BitVec.getElem_not]
    cases v[i] <;> cases m[i] <;> rfl
  have hadd : (v &&& ~~~m) + (v &&& m) = v := by
    rw [BitVec.add_eq_or_of_and_eq_zero _ _ hdisjoint, hor]
  calc v &&& ~~~m = (v &&& ~~~m) + (v &&& m) - (v &&& m) := (BitVec.add_sub_cancel ..).symm
    _ = v - (v &&& m) := by rw [hadd]

theorem align_toNat (ha : a.toNat = 2 ^ k) (hfits : x.toNat + 2 ^ k ≤ 2 ^ 32) :
    (align x a).toNat = (x.toNat + (2 ^ k - 1)) / 2 ^ k * 2 ^ k := by
  have hpow := Nat.two_pow_pos k
  have hone : (1 : U32).toNat = 1 := rfl
  have hmask : (a - 1).toNat = 2 ^ k - 1 := by
    rw [BitVec.toNat_sub_of_le (by rw [BitVec.le_def, hone, ha]; exact hpow), hone, ha]
  have hsum : (x + (a - 1)).toNat = x.toNat + (2 ^ k - 1) := by
    rw [BitVec.toNat_add, hmask, Nat.mod_eq_of_lt (by omega)]
  have hlow : ((x + (a - 1)) &&& (a - 1)).toNat = (x.toNat + (2 ^ k - 1)) % 2 ^ k := by
    rw [BitVec.toNat_and, hsum, hmask, Nat.and_two_pow_sub_one_eq_mod]
  rw [align, and_not_eq_sub, BitVec.toNat_sub_of_le, hlow, hsum]
  · have hdiv := Nat.div_add_mod (x.toNat + (2 ^ k - 1)) (2 ^ k)
    rw [Nat.mul_comm] at hdiv
    omega
  · rw [BitVec.le_def, hlow, hsum]
    exact Nat.mod_le _ _

theorem le_align (ha : a.toNat = 2 ^ k) (hfits : x.toNat + 2 ^ k ≤ 2 ^ 32) :
    x.toNat ≤ (align x a).toNat := by
  have hpow := Nat.two_pow_pos k
  have hdiv := Nat.div_add_mod (x.toNat + (2 ^ k - 1)) (2 ^ k)
  have hmod := Nat.mod_lt (x.toNat + (2 ^ k - 1)) hpow
  rw [Nat.mul_comm] at hdiv
  rw [align_toNat ha hfits]
  omega

end Align

/-! ## The flash -/

/-- A flash, as it is read through `mtd_read`. -/
structure Nand where
  bytes : ℕ → UInt8
  readable : ℕ → ℕ → Bool

def Nand.read (flash : Nand) (off len : ℕ) : Option (List UInt8) :=
  if flash.readable off len then some (region flash.bytes off len) else none

/-- The header at an offset can be read and is accepted. -/
def Nand.hasHeader (flash : Nand) (off : U32) : Bool :=
  match flash.read off.toNat imageHeaderBytes with
  | some hdr => headerValid hdr
  | none => false

def headerSize : U32 := 64

def maxUBootSize : U32 := 0x80000
def splAlignTo : U32 := 0x20000

def searchRounds : ℕ := maxUBootSize.toNat + 2

/-- The loop of both searches. -/
def searchFrom (accept : U32 → Bool) (step start : U32) : Option (Option U32) :=
  find (fun addr => decide (addr < maxUBootSize)) accept (fun addr => addr + step) searchRounds
    start

/-! ## The search of the boot loader -/

structure StockInfo where
  stage2OffMin : U32
  stage2Off : U32
  alignSize : U32
deriving DecidableEq

def firstStageHeader (hdr : List UInt8) : Bool :=
  headerWord hdr 0 != imageMagic || (imageCheckHcrc hdr && checkNandCrc hdr)

/-- `check_mtk_stock_stage2_info` once the record has been read. -/
def stage2Info (flash : Nand) (cfg : RomCfg) : Option StockInfo :=
  if cfg.Valid then
    let off := cfg.size + headerSize
    if cfg.align = 0 then
      some ⟨off, off, cfg.align⟩
    else
      let off := align off cfg.align
      match searchFrom flash.hasHeader cfg.align off with
      | some (some addr) => some ⟨off, addr, cfg.align⟩
      | _ => some ⟨off, off, cfg.align⟩
  else
    none

def checkMtkStockStage2Info (flash : Nand) : Option StockInfo :=
  match flash.read 0 imageHeaderBytes with
  | none => none
  | some hdr =>
      if firstStageHeader hdr then
        match flash.read (imageHeaderBytes + romCfgOff) romCfgBytes with
        | none => none
        | some bytes => stage2Info flash (RomCfg.ofBytes bytes)
      else
        none

/-! ## The search of the first stage -/

def getMtkImageSearchStart (cfg : RomCfg) : U32 :=
  if cfg.Valid then cfg.size + headerSize else splAlignTo

def getMtkImageSearchSectorSize (cfg : RomCfg) : U32 :=
  if cfg.Valid then cfg.align else splAlignTo

/-- `spl_mtk_read_nand_image` and `spl_try_load_image`.  `loads` tells whether
an image with a good header can be parsed, read and unpacked. -/
def bootable (flash : Nand) (loads : U32 → Bool) (off : U32) : Bool :=
  flash.hasHeader off && loads off

def splMtkNandLoadImage (flash : Nand) (loads : U32 → Bool) (cfg : RomCfg) : Option U32 :=
  let searchStart := getMtkImageSearchStart cfg
  let searchSectorSize := getMtkImageSearchSectorSize cfg
  if bootable flash loads searchStart then
    some searchStart
  else if searchSectorSize = 0 then
    none
  else
    match searchFrom (bootable flash loads) searchSectorSize
        (align searchStart searchSectorSize) with
    | some (some addr) => some addr
    | _ => none

/-! ## Rounds of a search -/

/-! ## Both searches -/

def Nand.romCfg (flash : Nand) : RomCfg :=
  RomCfg.ofBytes (region flash.bytes (imageHeaderBytes + romCfgOff) romCfgBytes)

structure Nand.HasFirstStage (flash : Nand) : Prop where
  readable : ∀ off len, flash.readable off len = true
  header : firstStageHeader (region flash.bytes 0 imageHeaderBytes) = true
  record : flash.romCfg.Valid

theorem Nand.HasFirstStage.check {flash : Nand} (h : flash.HasFirstStage) :
    checkMtkStockStage2Info flash = stage2Info flash flash.romCfg := by
  unfold checkMtkStockStage2Info Nand.read
  rw [if_pos (h.readable ..), if_pos (h.readable ..)]
  dsimp only
  rw [if_pos h.header]
  rfl

section Sample

def splImage (size align : ℕ) : List UInt8 :=
  sealHeader (setFields 0 0 zeroHeader []) ++ List.replicate romCfgOff 0 ++
    toLE 4 romCfgMagic ++ toLE 4 size ++ toLE 4 align

def magicHeader : List UInt8 :=
  overwrite zeroHeader 0 (toBE 4 imageMagic)

def emptyImage : List UInt8 :=
  overwrite magicHeader hcrcOff (toBE 4 (crc32 magicHeader))

def sampleNand (size align off : ℕ) : Nand where
  bytes := blit (fun i => (splImage size align).getD i 0xff) off emptyImage
  readable := fun _ _ => true

end Sample

end Nwa50ax.Boot
