import Nwa50ax.Boot.Download

/-!
# Upgrading the second stage

`write_bootloader` puts a new boot loader on the flash.  A second stage alone
replaces the one that `check_mtk_stock_stage2_info` reports, unless the erase
blocks of the flash and the alignment of the first stage do not go together; then
the image is written to the beginning of the flash, as a boot loader of a single
stage.

The offset that is chosen has to be one at which the first stage looks, and the
first of them with an image.
-/

namespace Nwa50ax.Boot

open ByteBuffer ByteStore Search

/-! ## Choosing the offset -/

/-- The offset for a new second stage; `none` stands for the beginning of the
flash. -/
def stage2Target (info : StockInfo) (flashBlockSize : U32) : Option U32 :=
  if flashBlockSize = 0 then
    none
  else if info.alignSize = flashBlockSize then
    some info.stage2Off
  else if info.alignSize < flashBlockSize then
    if info.alignSize = 0 then
      none
    else if flashBlockSize % info.alignSize ≠ 0 then
      none
    else if info.stage2Off % flashBlockSize ≠ 0 then
      if info.stage2OffMin % flashBlockSize ≠ 0 then
        let tmp := align info.stage2OffMin flashBlockSize
        if info.stage2Off < tmp then none else some tmp
      else
        some info.stage2OffMin
    else
      some info.stage2Off
  else if info.alignSize % flashBlockSize ≠ 0 then
    none
  else
    some info.stage2Off

/-! ## Writing -/

structure UpgradeBoard where
  eraseSize : U32
  partition : Option (ℕ × ℕ)
  confirms : Bool
  erases : U32 → U32 → Bool
  programs : U32 → U32 → Bool
  environment : ℕ → UInt8

/-- What has become of an upgrade.  The contents of the flash after a failed
erasure or programming are left open. -/
inductive Upgrade
  | failure
  | hangs
  | written (off : U32) (flash : Nand)

def Upgrade.off : Upgrade → Option U32
  | .written off _ => some off
  | _ => none

def envOffset : ℕ := 0x80000
def envSize : ℕ := 0x20000

def checkMtdBootloaderSize (board : UpgradeBoard) (dataSize : U32) : Bool :=
  match board.partition with
  | none => true
  | some (partOff, partSize) =>
      if partOff = 0 ∧ partSize < dataSize.toNat then board.confirms else true

/-- `do_data_verify` reads 4 KiB at a time. -/
def doDataVerify (flash : Nand) (off : ℕ) (data : List UInt8) : Bool :=
  (List.range ((data.length + 4095) / 4096)).all fun i =>
    flash.read (off + i * 4096) (min 4096 (data.length - i * 4096)) ==
      some (slice data (i * 4096) 4096)

def Nand.program (flash : Nand) (off eraseSize : U32) (data : List UInt8) : Nand :=
  { flash with
    bytes := blit (blit flash.bytes off.toNat (List.replicate eraseSize.toNat 0xff)) off.toNat
      data }

def Nand.eraseEnvironment (flash : Nand) (board : UpgradeBoard) : Nand :=
  { flash with bytes := blit flash.bytes envOffset (region board.environment 0 envSize) }

section Write

variable (board : UpgradeBoard) (flash : Nand) (mem : ℕ → UInt8) (dataSize : U32)

def doWriteBootloader (stockStage2Off stage1Size : U32) : Upgrade :=
  let off := if stockStage2Off ≠ 0 ∧ stage1Size ≠ 0 then 0 else stockStage2Off
  if checkMtdBootloaderSize board (off + dataSize) then
    let eraseSize := align dataSize board.eraseSize
    if board.erases off eraseSize && board.programs off dataSize then
      let data := region mem 0 dataSize.toNat
      let programmed := flash.program off eraseSize data
      if doDataVerify programmed off.toNat data then
        .written off (programmed.eraseEnvironment board)
      else
        .failure
    else
      .failure
  else
    .failure

/-- `write_bootloader` once the second stage of the image has been located. -/
def writeStages (data : U32) : Upgrade :=
  if verifyStage2Integrity (fun i => mem (data.toNat + i)) (dataSize - data) ≠ 0 then
    .failure
  else
    match checkMtkStockStage2Info flash with
    | none => doWriteBootloader board flash mem dataSize 0 0
    | some info =>
        match stage2Target info board.eraseSize with
        | none => doWriteBootloader board flash mem dataSize 0 0
        | some target => doWriteBootloader board flash mem dataSize target data

def writeBootloader : Upgrade :=
  match getMtkStage2ImagePtr mem dataSize with
  | .hangs => .hangs
  | .null => doWriteBootloader board flash mem dataSize 0 0
  | .found data => writeStages board flash mem dataSize data

end Write

/-! ## The offset that is chosen -/

theorem stage2Info_aligned {flash : Nand} {cfg : RomCfg} {info : StockInfo}
    (hinfo : stage2Info flash cfg = some info) (hstep : info.alignSize ≠ 0) :
    info.alignSize = cfg.align ∧
      info.stage2OffMin = align (cfg.size + headerSize) cfg.align ∧
      ∃ n, info.stage2Off = (fun addr => addr + cfg.align)^[n] info.stage2OffMin ∧
        Passes (fun addr => decide (addr < maxUBootSize)) flash.hasHeader
          (fun addr => addr + cfg.align) info.stage2OffMin n ∧
        (n = 0 ∨ info.stage2Off < maxUBootSize) := by
  unfold stage2Info at hinfo
  dsimp only at hinfo
  split at hinfo
  · split at hinfo
    · rename_i hzero
      rw [Option.some_inj] at hinfo
      rw [← hinfo] at hstep
      exact absurd hzero hstep
    · split at hinfo
      · rename_i addr hfound
        rw [Option.some_inj] at hinfo
        rw [← hinfo]
        obtain ⟨n, -, hn, hpasses, hin, -⟩ := find_found hfound
        exact ⟨rfl, rfl, n, hn, hpasses, .inr (of_decide_eq_true hin)⟩
      · rw [Option.some_inj] at hinfo
        rw [← hinfo]
        exact ⟨rfl, rfl, 0, rfl, .zero, .inl rfl⟩
  · exact absurd hinfo (by simp)

theorem dvd_of_umod {x y : U32} (h : x % y = 0) : y.toNat ∣ x.toNat := by
  apply Nat.dvd_of_mod_eq_zero
  rw [← BitVec.toNat_umod, h]
  rfl

theorem stage2Target_cases {info : StockInfo} {blockSize off : U32}
    (h : stage2Target info blockSize = some off) :
    info.alignSize ≠ 0 ∧
      ((off = info.stage2Off ∧
          (blockSize.toNat ∣ info.alignSize.toNat ∨ blockSize.toNat ∣ info.stage2Off.toNat)) ∨
        (off = info.stage2OffMin ∧ blockSize.toNat ∣ info.stage2OffMin.toNat) ∨
        (off = align info.stage2OffMin blockSize ∧ off ≤ info.stage2Off ∧
          info.alignSize.toNat ∣ blockSize.toNat)) := by
  unfold stage2Target at h
  split at h
  · exact absurd h (by simp)
  · rename_i hblock
    split at h
    · rename_i hsame
      rw [Option.some_inj] at h
      exact ⟨hsame ▸ hblock, .inl ⟨h.symm, .inl (hsame ▸ Nat.dvd_refl _)⟩⟩
    · split at h
      · split at h
        · exact absurd h (by simp)
        · rename_i hzero
          refine ⟨hzero, ?_⟩
          split at h
          · exact absurd h (by simp)
          · rename_i hdivides
            have halign := dvd_of_umod (not_not.mp hdivides)
            split at h
            · split at h
              · dsimp only at h
                split at h
                · exact absurd h (by simp)
                · rename_i hle
                  rw [Option.some_inj] at h
                  exact .inr (.inr ⟨h.symm, h ▸ BitVec.not_lt.mp hle, halign⟩)
              · rename_i hmin
                rw [Option.some_inj] at h
                exact .inr (.inl ⟨h.symm, dvd_of_umod (not_not.mp hmin)⟩)
            · rename_i hoff
              rw [Option.some_inj] at h
              exact .inl ⟨h.symm, .inr (dvd_of_umod (not_not.mp hoff))⟩
      · rename_i hlarger
        split at h
        · exact absurd h (by simp)
        · rename_i hmultiple
          rw [Option.some_inj] at h
          refine ⟨?_, .inl ⟨h.symm, .inl (dvd_of_umod (not_not.mp hmultiple))⟩⟩
          intro hzero
          rw [hzero] at hlarger
          exact hlarger (Nat.pos_of_ne_zero fun h => hblock (BitVec.eq_of_toNat_eq h))

theorem iterate_toNat {accept : U32 → Bool} {start step : U32} {n : ℕ}
    (hpasses : Passes (fun addr => decide (addr < maxUBootSize)) accept
      (fun addr => addr + step) start n)
    (hfits : maxUBootSize.toNat + step.toNat ≤ 2 ^ 32) {m : ℕ} (hm : m ≤ n) :
    ((fun addr => addr + step)^[m] start).toNat = start.toNat + m * step.toNat := by
  induction m with
  | zero => rw [Function.iterate_zero, id, Nat.zero_mul, Nat.add_zero]
  | succ m ih =>
      have hin := BitVec.lt_def.mp (of_decide_eq_true (hpasses m hm).1)
      rw [Function.iterate_succ_apply', BitVec.toNat_add, Nat.mod_eq_of_lt (by omega),
        ih (by omega), Nat.succ_mul, Nat.add_assoc]

structure Visited (flash : Nand) (info : StockInfo) (off : U32) (n : ℕ) : Prop where
  position : off = (fun addr => addr + info.alignSize)^[n] info.stage2OffMin
  toNat : off.toNat = info.stage2OffMin.toNat + n * info.alignSize.toNat
  inRange : off < maxUBootSize
  reported : off ≤ info.stage2Off
  passes : Passes (fun addr => decide (addr < maxUBootSize)) flash.hasHeader
    (fun addr => addr + info.alignSize) info.stage2OffMin n

theorem stage2Target_visited {flash : Nand} {cfg : RomCfg} {info : StockInfo}
    (hinfo : stage2Info flash cfg = some info) {blockSize off : U32} {k : ℕ}
    (hblock : blockSize.toNat = 2 ^ k) (htarget : stage2Target info blockSize = some off)
    (hmin : info.stage2OffMin < maxUBootSize)
    (hfits : maxUBootSize.toNat + info.alignSize.toNat ≤ 2 ^ 32) :
    2 ^ k ∣ off.toNat ∧ ∃ n, Visited flash info off n := by
  have hk : k < 32 := by
    rw [← Nat.pow_lt_pow_iff_right (show 1 < 2 by decide), ← hblock]
    exact blockSize.isLt
  obtain ⟨hstep, hcases⟩ := stage2Target_cases htarget
  obtain ⟨halign, hoffMin, n, hoff, hpasses, hin⟩ := stage2Info_aligned hinfo hstep
  rw [← halign] at hoffMin hoff hpasses
  have hreported : info.stage2Off.toNat =
      info.stage2OffMin.toNat + n * info.alignSize.toNat := by
    rw [hoff, iterate_toNat hpasses hfits le_rfl]
  have hrange : info.stage2Off < maxUBootSize := by
    rcases hin with rfl | hin
    · rw [hoff]
      exact hmin
    · exact hin
  rcases hcases with ⟨rfl, hdvd⟩ | ⟨rfl, hdvd⟩ | ⟨rfl, hle, hdvd⟩
  · refine ⟨?_, n, ⟨hoff, hreported, hrange, BitVec.le_refl _, hpasses⟩⟩
    rcases hdvd with hdvd | hdvd
    · rw [hblock] at hdvd
      rw [hoff]
      refine dvd_iterate_add hk.le ?_ hdvd n
      rw [hoffMin]
      exact dvd_align hdvd hstep
    · rwa [hblock] at hdvd
  · refine ⟨hblock ▸ hdvd, 0, ⟨rfl, ?_, hmin, ?_, .zero⟩⟩
    · rw [Nat.zero_mul, Nat.add_zero]
    · rw [BitVec.le_def, hreported]
      exact Nat.le_add_right _ _
  · rw [hblock] at hdvd
    have hmul : 2 ^ k ∣ (align info.stage2OffMin blockSize).toNat :=
      dvd_align (hblock ▸ Nat.dvd_refl _) fun hzero => by
        rw [hzero] at hblock
        exact (Nat.two_pow_pos k).ne hblock
    refine ⟨hmul, ?_⟩
    -- both offsets are multiples of the alignment, which is a power of two
    obtain ⟨j, hj, hpow⟩ := (Nat.dvd_prime_pow Nat.prime_two).mp hdvd
    have hsmall : info.stage2OffMin.toNat ≤ (align info.stage2OffMin blockSize).toNat := by
      refine le_align hblock ?_
      have hlt : info.stage2OffMin.toNat < 0x80000 := hmin
      have hle31 : 2 ^ k ≤ 2 ^ 31 := Nat.pow_le_pow_right (by decide) (by omega)
      omega
    have hdvdMin : info.alignSize.toNat ∣ info.stage2OffMin.toNat := by
      rw [hoffMin, hpow]
      exact dvd_align (hpow ▸ Nat.dvd_refl _) hstep
    have hdvdOff : info.alignSize.toNat ∣ (align info.stage2OffMin blockSize).toNat :=
      (hpow ▸ Nat.pow_dvd_pow 2 hj).trans hmul
    obtain ⟨m, hm⟩ := Nat.dvd_sub hdvdOff hdvdMin
    have hvalue : (align info.stage2OffMin blockSize).toNat =
        info.stage2OffMin.toNat + m * info.alignSize.toNat := by
      rw [Nat.mul_comm, ← hm]
      omega
    have hmn : m ≤ n := by
      have hpos := Nat.two_pow_pos j
      rw [← hpow] at hpos
      have hupper := BitVec.le_def.mp hle
      rw [hvalue, hreported] at hupper
      exact Nat.le_of_mul_le_mul_right (Nat.le_of_add_le_add_left hupper) hpos
    refine ⟨m, ⟨BitVec.eq_of_toNat_eq ?_, hvalue, ?_, hle, fun i hi => hpasses i (by omega)⟩⟩
    · rw [hvalue, iterate_toNat hpasses hfits hmn]
    · exact BitVec.lt_def.mpr (Nat.lt_of_le_of_lt (BitVec.le_def.mp hle) (BitVec.lt_def.mp hrange))

/-! ## The flash afterwards -/

section After

variable {board : UpgradeBoard} {flash after : Nand} {mem : ℕ → UInt8} {dataSize off : U32}

theorem doWriteBootloader_written {target : U32}
    (h : doWriteBootloader board flash mem dataSize target 0 = .written off after) :
    off = target ∧ after = (flash.program off (align dataSize board.eraseSize)
      (region mem 0 dataSize.toNat)).eraseEnvironment board := by
  have halone : ¬(target ≠ 0 ∧ (0 : U32) ≠ 0) := fun hboth => hboth.2 rfl
  unfold doWriteBootloader at h
  rw [if_neg halone] at h
  dsimp only at h
  split at h
  · split at h
    · split at h
      · rw [Upgrade.written.injEq] at h
        obtain ⟨rfl, rfl⟩ := h
        exact ⟨rfl, rfl⟩
      · exact absurd h (by simp)
    · exact absurd h (by simp)
  · exact absurd h (by simp)

theorem headerValid_of_verified (hptr : getMtkStage2ImagePtr mem dataSize = .found 0)
    (hverify : verifyStage2Integrity mem dataSize = 0) :
    headerValid (region mem 0 imageHeaderBytes) = true := by
  have hmagic : headerWord (region mem 0 imageHeaderBytes) 0 = imageMagic := by
    by_contra hne
    unfold verifyStage2Integrity verifyIntegrity at hverify
    dsimp only at hverify
    rw [if_pos hne] at hverify
    exact absurd hverify (by decide)
  have hhcrc : imageCheckHcrc (region mem 0 imageHeaderBytes) = true := by
    by_contra hne
    unfold getMtkStage2ImagePtr at hptr
    dsimp only at hptr
    rw [if_pos hmagic, if_neg hne] at hptr
    exact absurd hptr (by simp)
  unfold headerValid
  rw [hmagic, hhcrc]
  rfl

theorem writeBootloader_written {info : StockInfo} {target : U32}
    (hptr : getMtkStage2ImagePtr mem dataSize = .found 0)
    (hinfo : checkMtkStockStage2Info flash = some info)
    (htarget : stage2Target info board.eraseSize = some target)
    (h : writeBootloader board flash mem dataSize = .written off after) :
    headerValid (region mem 0 imageHeaderBytes) = true ∧ off = target ∧
      after = (flash.program off (align dataSize board.eraseSize)
        (region mem 0 dataSize.toNat)).eraseEnvironment board := by
  have hmem : (fun i => mem ((0 : U32).toNat + i)) = mem := by
    funext i
    exact congrArg mem (Nat.zero_add i)
  unfold writeBootloader at h
  rw [hptr] at h
  dsimp only at h
  unfold writeStages at h
  rw [hmem, show dataSize - 0 = dataSize from BitVec.sub_zero dataSize, hinfo] at h
  dsimp only at h
  rw [htarget] at h
  split at h
  · exact absurd h (by simp)
  · rename_i hverify
    exact ⟨headerValid_of_verified hptr (not_not.mp hverify), doWriteBootloader_written h⟩

theorem region_after_below {pos len : ℕ} {eraseSize : U32} {data : List UInt8}
    (hoff : pos + len ≤ off.toNat) (henv : pos + len ≤ envOffset) :
    region ((flash.program off eraseSize data).eraseEnvironment board).bytes pos len =
      region flash.bytes pos len := by
  unfold Nand.eraseEnvironment Nand.program
  rw [region_blit_disjoint (.inl henv), region_blit_disjoint (.inl hoff),
    region_blit_disjoint (.inl hoff)]

theorem region_after_header {eraseSize : U32} (hsize : imageHeaderBytes ≤ dataSize.toNat)
    (henv : off.toNat + imageHeaderBytes ≤ envOffset) :
    region ((flash.program off eraseSize (region mem 0 dataSize.toNat)).eraseEnvironment
        board).bytes off.toNat imageHeaderBytes = region mem 0 imageHeaderBytes := by
  unfold Nand.eraseEnvironment Nand.program
  rw [region_blit_disjoint (.inl henv)]
  have hall := region_blit (blit flash.bytes off.toNat (List.replicate eraseSize.toNat 0xff))
    off.toNat (region mem 0 dataSize.toNat)
  rw [length_region] at hall
  have hslice := slice_region (blit (blit flash.bytes off.toNat
    (List.replicate eraseSize.toNat 0xff)) off.toNat (region mem 0 dataSize.toNat)) off.toNat
    (show 0 + imageHeaderBytes ≤ dataSize.toNat by omega)
  rw [hall, slice_region mem 0 (show 0 + imageHeaderBytes ≤ dataSize.toNat by omega)] at hslice
  exact hslice.symm

theorem hasHeader_of_region {flash' : Nand} {addr : U32}
    (hreadable : ∀ pos len, flash.readable pos len = true)
    (hreadable' : ∀ pos len, flash'.readable pos len = true)
    (hregion : region flash'.bytes addr.toNat imageHeaderBytes =
      region flash.bytes addr.toNat imageHeaderBytes) :
    flash'.hasHeader addr = flash.hasHeader addr := by
  unfold Nand.hasHeader Nand.read
  rw [if_pos (hreadable ..), if_pos (hreadable' ..), hregion]

theorem Visited.search_after {info : StockInfo} {n : ℕ} (h : Visited flash info off n)
    (hfits : maxUBootSize.toNat + info.alignSize.toNat ≤ 2 ^ 32)
    (hroom : imageHeaderBytes ≤ info.alignSize.toNat)
    (hbelow : ∀ pos len, pos + len ≤ off.toNat →
      region after.bytes pos len = region flash.bytes pos len)
    (hreadable : ∀ pos len, flash.readable pos len = true)
    (hreadable' : ∀ pos len, after.readable pos len = true)
    {loads : U32 → Bool} (haccept : bootable after loads off = true) :
    searchFrom (bootable after loads) info.alignSize info.stage2OffMin = some (some off) := by
  have hvalue := h.toNat
  have hin : off.toNat < 0x80000 := h.inRange
  have hpasses : Passes (fun addr => decide (addr < maxUBootSize)) (bootable after loads)
      (fun addr => addr + info.alignSize) info.stage2OffMin n := by
    intro m hm
    obtain ⟨hmore, hnone⟩ := h.passes m hm
    have hposition := iterate_toNat h.passes hfits hm.le
    have hnext : (m + 1) * info.alignSize.toNat ≤ n * info.alignSize.toNat :=
      Nat.mul_le_mul_right _ hm
    rw [Nat.succ_mul] at hnext
    generalize (fun addr => addr + info.alignSize)^[m] info.stage2OffMin = addr at *
    refine ⟨hmore, ?_⟩
    have hsame : after.hasHeader addr = flash.hasHeader addr :=
      hasHeader_of_region hreadable hreadable' (hbelow _ _ (by omega))
    unfold bootable
    rw [hsame, hnone]
    rfl
  have hrounds : n < searchRounds := by
    have hle : n * 1 ≤ n * info.alignSize.toNat :=
      Nat.mul_le_mul_left _ (by unfold imageHeaderBytes at hroom; omega)
    have hmax : searchRounds = 0x80000 + 2 := rfl
    omega
  have hposition := h.position
  have hfound := hpasses.find_eq (by rw [← hposition]; exact decide_eq_true h.inRange)
    (by rw [← hposition]; exact haccept) hrounds
  rwa [← hposition] at hfound

end After

section Sample

def upgradeBoard : UpgradeBoard where
  eraseSize := 0x20000
  partition := some (0, 0x80000)
  confirms := true
  erases := fun _ _ => true
  programs := fun _ _ => true
  environment := fun _ => 0xff

def imageMem (i : ℕ) : UInt8 := emptyImage.getD i 0

theorem Upgrade.written_of_off {upgrade : Upgrade} {off : U32} (h : upgrade.off = some off) :
    ∃ after, upgrade = .written off after := by
  cases upgrade with
  | failure => exact absurd h (by simp [Upgrade.off])
  | hangs => exact absurd h (by simp [Upgrade.off])
  | written pos after =>
      rw [Upgrade.off, Option.some_inj] at h
      exact ⟨after, h ▸ rfl⟩

end Sample

end Nwa50ax.Boot
