import Nwa50ax.Boot.Stage2

/-!
# Downloaded boot loaders

`get_mtk_stage2_image_ptr` finds the second stage in a boot loader in memory,
and `verify_stage2_integrity` checks it.  Sizes, offsets and the step of the
search come from the file.  What the functions look at is recorded as a list of
ranges; a pointer into the file is the offset from its beginning.

The memory goes on behind the file, so a range that leaves the file has
contents.
-/

namespace Nwa50ax.Boot

open ByteBuffer ByteStore Search

/-! ## Locating the second stage -/

inductive Located
  | null
  | found (off : U32)
  | hangs
deriving DecidableEq

section Locate

variable (mem : ℕ → UInt8) (size : U32)

def memCfg : RomCfg :=
  RomCfg.ofBytes (region mem (imageHeaderBytes + romCfgOff) romCfgBytes)

def memHeader (off : U32) : Bool :=
  headerValid (region mem off.toNat imageHeaderBytes)

/-- There are `2 ^ 32` offsets, so a search that makes more rounds never ends. -/
def locateRounds : ℕ := 2 ^ 32 + 1

def inFile (off : U32) : Bool := decide (off < size)

def locateFrom (step start : U32) : Option (Option U32) :=
  find (inFile size) (memHeader mem) (fun off => off + step) locateRounds start

/-- The part of `get_mtk_stage2_image_ptr` that uses the record. -/
def locateStage2 (cfg : RomCfg) : Located :=
  if cfg.Valid then
    let off := cfg.size + headerSize
    if cfg.align = 0 then
      .found off
    else
      match locateFrom mem size cfg.align (align off cfg.align) with
      | some (some off) => .found off
      | some none => .null
      | none => .hangs
  else
    .null

def getMtkStage2ImagePtr : Located :=
  let hdr := region mem 0 imageHeaderBytes
  if headerWord hdr 0 = imageMagic then
    if imageCheckHcrc hdr then
      if checkNandCrc hdr then locateStage2 mem size (memCfg mem) else .found 0
    else
      .null
  else
    locateStage2 mem size (memCfg mem)

def locateReads (cfg : RomCfg) : List (ℕ × ℕ) :=
  if cfg.Valid ∧ cfg.align ≠ 0 then
    (visits (inFile size) (memHeader mem) (fun off => off + cfg.align) locateRounds
      (align (cfg.size + headerSize) cfg.align)).map fun off => (off.toNat, imageHeaderBytes)
  else
    []

/-- The ranges that `get_mtk_stage2_image_ptr` inspects. -/
def getMtkStage2ImageReads : List (ℕ × ℕ) :=
  (0, imageHeaderBytes) ::
    if firstStageHeader (region mem 0 imageHeaderBytes) then
      (imageHeaderBytes + romCfgOff, romCfgBytes) :: locateReads mem size (memCfg mem)
    else
      []

end Locate

section Aligned

variable {mem : ℕ → UInt8} {size : U32} {cfg : RomCfg}

theorem locateStage2_unaligned (hvalid : cfg.Valid) (hstep : cfg.align = 0) :
    locateStage2 mem size cfg = .found (cfg.size + headerSize) := by
  unfold locateStage2
  dsimp only
  rw [if_pos hvalid, if_pos hstep]

theorem locateStage2_hangs (hvalid : cfg.Valid) (hstep : cfg.align ≠ 0)
    (h : locateFrom mem size cfg.align (align (cfg.size + headerSize) cfg.align) = none) :
    locateStage2 mem size cfg = .hangs := by
  unfold locateStage2
  dsimp only
  rw [if_pos hvalid, if_neg hstep, h]

theorem locateStage2_found (hvalid : cfg.Valid) (hstep : cfg.align ≠ 0) {off : U32}
    (h : locateFrom mem size cfg.align (align (cfg.size + headerSize) cfg.align) =
      some (some off)) :
    locateStage2 mem size cfg = .found off := by
  unfold locateStage2
  dsimp only
  rw [if_pos hvalid, if_neg hstep, h]

end Aligned

/-! ## Checking the second stage -/

section Verify

variable (mem : ℕ → UInt8) (size : U32)

def dataSize : U32 :=
  BitVec.ofNat 32 (imageGetSize (region mem 0 imageHeaderBytes))

/-- `verify_bootloader_stage2_integrity` and `verify_stage2_integrity` are the
same program. -/
def verifyIntegrity : ℕ :=
  let hdr := region mem 0 imageHeaderBytes
  if headerWord hdr 0 ≠ imageMagic then
    1
  else if size < dataSize mem + headerSize then
    1
  else if crc32 (region mem imageHeaderBytes (dataSize mem).toNat) ≠ headerWord hdr 24 then
    1
  else
    0

def verifyBootloaderStage2Integrity : ℕ := verifyIntegrity mem size

def verifyStage2Integrity : ℕ := verifyIntegrity mem size

def verifyReads : List (ℕ × ℕ) :=
  (0, imageHeaderBytes) ::
    if headerWord (region mem 0 imageHeaderBytes) 0 = imageMagic ∧
        ¬size < dataSize mem + headerSize then
      [(imageHeaderBytes, (dataSize mem).toNat)]
    else
      []

end Verify

/-! ## Files that are inspected safely -/

def Inside (size : ℕ) (reads : List (ℕ × ℕ)) : Prop :=
  ∀ r ∈ reads, r.1 + r.2 ≤ size

/-- A file with room for the record.  Without an alignment, the second stage
that the record names has a header in the file; otherwise the alignment is a
power of two, no sum wraps around, and what is left behind the last multiple of
the alignment has room for a header. -/
structure Download (mem : ℕ → UInt8) (size : U32) : Prop where
  record : imageHeaderBytes + romCfgOff + romCfgBytes ≤ size.toNat
  unaligned : (memCfg mem).Valid → (memCfg mem).align = 0 →
    ((memCfg mem).size + headerSize).toNat + imageHeaderBytes ≤ size.toNat
  aligned : (memCfg mem).Valid → (memCfg mem).align ≠ 0 →
    ∃ k, (memCfg mem).align.toNat = 2 ^ k ∧ imageHeaderBytes ≤ 2 ^ k ∧
      size.toNat + 2 ^ k ≤ 2 ^ 32 ∧
      (size.toNat % 2 ^ k = 0 ∨ imageHeaderBytes ≤ size.toNat % 2 ^ k)

theorem dvd_iterate_add {k : ℕ} {start step : U32} (hk : k ≤ 32) (hstart : 2 ^ k ∣ start.toNat)
    (hstep : 2 ^ k ∣ step.toNat) (n : ℕ) :
    2 ^ k ∣ ((fun off => off + step)^[n] start).toNat := by
  induction n with
  | zero => exact hstart
  | succ n ih =>
      rw [Function.iterate_succ_apply', BitVec.toNat_add,
        Nat.dvd_mod_iff (Nat.pow_dvd_pow 2 hk)]
      exact Nat.dvd_add ih hstep

theorem header_fits {k off size : ℕ} (hdvd : 2 ^ k ∣ off) (hin : off < size)
    (hroom : imageHeaderBytes ≤ 2 ^ k)
    (htail : size % 2 ^ k = 0 ∨ imageHeaderBytes ≤ size % 2 ^ k) :
    off + imageHeaderBytes ≤ size := by
  obtain ⟨q, rfl⟩ := hdvd
  have hdiv := Nat.div_add_mod size (2 ^ k)
  have hmod := Nat.mod_lt size (Nat.two_pow_pos k)
  have hq : q ≤ size / 2 ^ k :=
    (Nat.le_div_iff_mul_le (Nat.two_pow_pos k)).mpr (by rw [Nat.mul_comm]; exact hin.le)
  rcases htail with hzero | htail
  · have hlt : q < size / 2 ^ k := by
      refine lt_of_le_of_ne hq fun heq => ?_
      rw [heq] at hin
      omega
    have hstep : 2 ^ k * (q + 1) ≤ 2 ^ k * (size / 2 ^ k) := Nat.mul_le_mul_left _ hlt
    rw [Nat.mul_succ] at hstep
    omega
  · have hle : 2 ^ k * q ≤ 2 ^ k * (size / 2 ^ k) := Nat.mul_le_mul_left _ hq
    omega

section Safe

variable {mem : ℕ → UInt8} {size : U32}

theorem Download.locate (h : Download mem size) :
    locateStage2 mem size (memCfg mem) ≠ .hangs ∧
      Inside size.toNat (locateReads mem size (memCfg mem)) ∧
      ∀ off, locateStage2 mem size (memCfg mem) = .found off →
        off.toNat + imageHeaderBytes ≤ size.toNat := by
  unfold locateStage2 locateReads
  by_cases hvalid : (memCfg mem).Valid
  · rw [if_pos hvalid]
    dsimp only
    by_cases hzero : (memCfg mem).align = 0
    · have hfits := h.unaligned hvalid hzero
      rw [if_pos hzero, if_neg fun hboth => hboth.2 hzero]
      refine ⟨by simp, by simp [Inside], fun off hoff => ?_⟩
      rw [Located.found.injEq] at hoff
      rw [← hoff]
      exact hfits
    · obtain ⟨k, hpow, hroom, hfits, htail⟩ := h.aligned hvalid hzero
      rw [if_neg hzero, if_pos ⟨hvalid, hzero⟩]
      generalize (memCfg mem).align = step at hpow hzero ⊢
      generalize (memCfg mem).size + headerSize = off₀
      have hk : k ≤ 32 := by
        rw [← Nat.pow_le_pow_iff_right (show 1 < 2 by decide), ← hpow]
        exact step.isLt.le
      have hstep : 2 ^ k ∣ step.toNat := hpow ▸ dvd_refl _
      have hstart : 2 ^ k ∣ (align off₀ step).toNat := dvd_align hstep hzero
      -- every position of the search is a multiple of the alignment
      have hposition : ∀ n, inFile size ((fun off => off + step)^[n] (align off₀ step)) = true →
          ((fun off => off + step)^[n] (align off₀ step)).toNat + imageHeaderBytes ≤
            size.toNat := by
        intro n hin
        unfold inFile at hin
        rw [decide_eq_true_eq, BitVec.lt_def] at hin
        exact header_fits (dvd_iterate_add hk hstart hstep n) hin hroom htail
      have hends : (locateFrom mem size step (align off₀ step)).isSome = true := by
        refine find_isSome (fun off => size.toNat - off.toNat) (fun off hmore _ => ?_) ?_
        · unfold inFile at hmore
          rw [decide_eq_true_eq, BitVec.lt_def] at hmore
          have hpos := Nat.two_pow_pos k
          rw [BitVec.toNat_add, hpow, Nat.mod_eq_of_lt (by omega)]
          omega
        · have hlt := size.isLt
          unfold locateRounds
          omega
      refine ⟨?_, ?_, fun off hoff => ?_⟩
      · split
        · simp
        · simp
        · rename_i hnone
          rw [hnone] at hends
          exact absurd hends (by simp)
      · intro r hr
        obtain ⟨off, hoff, rfl⟩ := List.mem_map.mp hr
        obtain ⟨n, rfl, -, hin⟩ := visits_mem hoff
        exact hposition n hin
      · split at hoff
        · rename_i off' hfound
          rw [Located.found.injEq] at hoff
          obtain ⟨n, -, hn, -, hin, -⟩ := find_found hfound
          rw [← hoff, hn]
          rw [hn] at hin
          exact hposition n hin
        · simp at hoff
        · simp at hoff
  · rw [if_neg hvalid, if_neg fun hboth => hvalid hboth.1]
    exact ⟨by simp, by simp [Inside], by simp⟩

theorem verifyIntegrity_inside (hsize : imageHeaderBytes ≤ size.toNat)
    (hfits : imageHeaderBytes + (dataSize mem).toNat < 2 ^ 32) :
    Inside size.toNat (verifyReads mem size) ∧
      (verifyIntegrity mem size = 0 →
        imageHeaderBytes + (dataSize mem).toNat ≤ size.toNat ∧
        crc32 (region mem imageHeaderBytes (dataSize mem).toNat) =
          headerWord (region mem 0 imageHeaderBytes) 24) := by
  have hheader : headerSize.toNat = imageHeaderBytes := rfl
  have hsum : (dataSize mem + headerSize).toNat = imageHeaderBytes + (dataSize mem).toNat := by
    rw [BitVec.toNat_add, hheader, Nat.mod_eq_of_lt (by omega), Nat.add_comm]
  have hle : ¬size < dataSize mem + headerSize →
      imageHeaderBytes + (dataSize mem).toNat ≤ size.toNat := by
    intro hnot
    rw [BitVec.lt_def, hsum] at hnot
    omega
  constructor
  · intro r hr
    unfold verifyReads at hr
    rcases List.mem_cons.mp hr with rfl | hr
    · rw [Nat.zero_add]
      exact hsize
    · split at hr
      · rename_i hboth
        rw [List.mem_singleton] at hr
        rw [hr]
        exact hle hboth.2
      · simp at hr
  · intro hzero
    unfold verifyIntegrity at hzero
    dsimp only at hzero
    split at hzero
    · simp at hzero
    · split at hzero
      · simp at hzero
      · rename_i hnot
        split at hzero
        · simp at hzero
        · rename_i hcrc
          exact ⟨hle hnot, not_not.mp hcrc⟩

end Safe

theorem getMtkStage2ImagePtr_of_firstStage {mem : ℕ → UInt8} {size : U32}
    (h : firstStageHeader (region mem 0 imageHeaderBytes) = true) :
    getMtkStage2ImagePtr mem size = locateStage2 mem size (memCfg mem) := by
  unfold getMtkStage2ImagePtr
  dsimp only
  by_cases hmagic : headerWord (region mem 0 imageHeaderBytes) 0 = imageMagic
  · have hboth : imageCheckHcrc (region mem 0 imageHeaderBytes) = true ∧
        checkNandCrc (region mem 0 imageHeaderBytes) = true := by
      simpa [firstStageHeader, hmagic] using h
    rw [if_pos hmagic, if_pos hboth.1, if_pos hboth.2]
  · rw [if_neg hmagic]

theorem getMtkStage2ImagePtr_of_other {mem : ℕ → UInt8} (size : U32)
    (h : firstStageHeader (region mem 0 imageHeaderBytes) = false) :
    getMtkStage2ImagePtr mem size = .null ∨ getMtkStage2ImagePtr mem size = .found 0 := by
  unfold getMtkStage2ImagePtr
  dsimp only
  split
  · rename_i hmagic
    split
    · rename_i hhcrc
      split
      · rename_i hnand
        simp [firstStageHeader, hhcrc, hnand] at h
      · exact .inr rfl
    · exact .inl rfl
  · rename_i hmagic
    simp [firstStageHeader, hmagic] at h

section Outside

def recordFile (size align : ℕ) (i : ℕ) : UInt8 :=
  (List.replicate (imageHeaderBytes + romCfgOff) 0 ++ toLE 4 romCfgMagic ++ toLE 4 size ++
    toLE 4 align).getD i 0xff

def hugeImage (i : ℕ) : UInt8 :=
  (overwrite magicHeader 12 (toBE 4 0xffffffff)).getD i 0

theorem locate_cycle (fuel : ℕ) :
    find (inFile 0x80000001) (memHeader (recordFile 0 0x80000000)) (fun off => off + 0x80000000)
      fuel 0x80000000 = none := by
  have hcycle : ∀ m, (fun off : U32 => off + 0x80000000)^[m] 0x80000000 = 0x80000000 ∨
      (fun off : U32 => off + 0x80000000)^[m] 0x80000000 = 0 := by
    intro m
    induction m with
    | zero => exact .inl rfl
    | succ m ih =>
        rw [Function.iterate_succ_apply']
        rcases ih with h | h
        · exact .inr (by rw [h]; decide)
        · exact .inl (by rw [h]; decide)
  refine find_eq_none (fun n m _ => ?_) fuel
  rcases hcycle m with h | h
  · rw [h]
    decide +kernel
  · rw [h]
    decide +kernel

end Outside

/-! ## Files of the tools -/

def paddedSize (size align : ℕ) : ℕ :=
  if align = 0 then size else (size + (align - 1)) / align * align

section Built

variable {bin : List UInt8}

theorem mtkSplPad_some (hmagic : word32 bin romCfgOff = romCfgMagic) :
    mtkSplPad bin = some (overwrite bin (romCfgOff + 4) (toLE 4 bin.length)) :=
  if_pos hmagic

theorem ofBytes_padded (hsize : romCfgOff + romCfgBytes ≤ bin.length)
    (hmagic : word32 bin romCfgOff = romCfgMagic) :
    RomCfg.ofBytes (slice (overwrite bin (romCfgOff + 4) (toLE 4 bin.length)) romCfgOff
        romCfgBytes) =
      ⟨BitVec.ofNat 32 romCfgMagic, BitVec.ofNat 32 bin.length,
        BitVec.ofNat 32 (word32 bin (romCfgOff + 8))⟩ := by
  unfold romCfgOff romCfgBytes at *
  have hoff : 0x40 + 4 ≤ bin.length := by omega
  have hword : ∀ i, i + 4 ≤ 12 →
      word32 (slice (overwrite bin (0x40 + 4) (toLE 4 bin.length)) 0x40 12) i =
        fromLE (slice (overwrite bin (0x40 + 4) (toLE 4 bin.length)) (0x40 + i) 4) := by
    intro i hi
    rw [word32, slice_slice hi]
  have hstored : slice (overwrite bin (0x40 + 4) (toLE 4 bin.length)) (0x40 + 4) 4 =
      toLE 4 bin.length := by
    have hslice := slice_overwrite (toLE 4 bin.length) hoff
    rwa [length_toLE] at hslice
  unfold RomCfg.ofBytes
  rw [RomCfg.mk.injEq]
  refine ⟨?_, ?_, ?_⟩
  · rw [hword 0 (by decide), slice_overwrite_before hoff (by decide)]
    exact congrArg (BitVec.ofNat 32) hmagic
  · rw [hword 4 (by decide), hstored, fromLE_toLE]
    exact BitVec.eq_of_toNat_eq (by simp)
  · rw [hword 8 (by decide), slice_overwrite_behind hoff (by simp)]
    rfl

variable (addr ep : U32) {padded : List UInt8}

theorem length_mt7621SetHeader (h : 16 ≤ padded.length) :
    (mt7621SetHeader addr ep (zeroHeader ++ padded)).length =
      imageHeaderBytes + padded.length := by
  rw [mt7621SetHeader_eq, List.length_append, (setFields_blank ..).length_seal,
    length_setStageHeader addr padded h]

theorem slice_mt7621SetHeader (h : 16 ≤ padded.length) (len : ℕ) :
    slice (mt7621SetHeader addr ep (zeroHeader ++ padded)) (imageHeaderBytes + romCfgOff) len =
      slice padded romCfgOff len := by
  rw [← slice_setStageHeader addr padded h (show 16 ≤ romCfgOff by decide), mt7621SetHeader_eq]
  unfold slice
  rw [← List.drop_drop, List.drop_left' (setFields_blank ..).length_seal]

end Built

theorem region_of_file {mem : ℕ → UInt8} {file : List UInt8}
    (h : region mem 0 file.length = file) {off len : ℕ} (hin : off + len ≤ file.length) :
    region mem off len = slice file off len := by
  rw [← h, slice_region mem 0 hin, Nat.zero_add]

theorem align_paddedSize {k size : ℕ} {a : U32} (ha : a.toNat = 2 ^ k)
    (hfits : paddedSize size (2 ^ k) < 2 ^ 32) :
    align (BitVec.ofNat 32 size) a = BitVec.ofNat 32 (paddedSize size (2 ^ k)) := by
  have hpow := Nat.two_pow_pos k
  have hk : k ≤ 32 := by
    rw [← Nat.pow_le_pow_iff_right (show 1 < 2 by decide), ← ha]
    exact a.isLt.le
  have hpadded : paddedSize size (2 ^ k) = (size + (2 ^ k - 1)) / 2 ^ k * 2 ^ k :=
    if_neg hpow.ne'
  rw [hpadded] at hfits ⊢
  have hdiv := Nat.div_add_mod (size + (2 ^ k - 1)) (2 ^ k)
  have hmod := Nat.mod_lt (size + (2 ^ k - 1)) hpow
  rw [Nat.mul_comm] at hdiv
  -- a multiple below `2 ^ 32` is at least one block below it
  have hblock : (size + (2 ^ k - 1)) / 2 ^ k * 2 ^ k + 2 ^ k ≤ 2 ^ 32 := by
    obtain ⟨q, hq⟩ := Nat.pow_dvd_pow 2 hk
    rw [hq] at hfits ⊢
    rw [Nat.mul_comm (2 ^ k) q] at hfits ⊢
    have hlt := Nat.lt_of_mul_lt_mul_right hfits
    calc (size + (2 ^ k - 1)) / 2 ^ k * 2 ^ k + 2 ^ k =
        ((size + (2 ^ k - 1)) / 2 ^ k + 1) * 2 ^ k := (Nat.succ_mul ..).symm
      _ ≤ q * 2 ^ k := Nat.mul_le_mul_right _ hlt
  have hsize : (BitVec.ofNat 32 size).toNat = size := by
    rw [BitVec.toNat_ofNat, Nat.mod_eq_of_lt (by omega)]
  apply BitVec.eq_of_toNat_eq
  rw [align_toNat ha (by rw [hsize]; omega), hsize, BitVec.toNat_ofNat, Nat.mod_eq_of_lt (by omega)]

theorem locateStage2_padded {mem : ℕ → UInt8} {cfg : RomCfg} {size len : ℕ} (hvalid : cfg.Valid)
    (hlen : cfg.size + headerSize = BitVec.ofNat 32 len)
    (halign : cfg.align.toNat = 0 ∨ ∃ k, cfg.align.toNat = 2 ^ k)
    (hroom : paddedSize len cfg.align.toNat + imageHeaderBytes ≤ size) (hsize : size < 2 ^ 32)
    (hheader : headerValid (region mem (paddedSize len cfg.align.toNat) imageHeaderBytes) = true) :
    locateStage2 mem (BitVec.ofNat 32 size) cfg =
      .found (BitVec.ofNat 32 (paddedSize len cfg.align.toNat)) := by
  rcases halign with hzero | ⟨k, hk⟩
  · rw [locateStage2_unaligned hvalid (BitVec.eq_of_toNat_eq hzero), hlen, hzero, paddedSize,
      if_pos rfl]
  · have hstep : cfg.align ≠ 0 := by
      intro hzero
      rw [hzero] at hk
      exact (Nat.two_pow_pos k).ne hk
    rw [hk] at hroom hheader ⊢
    refine locateStage2_found hvalid hstep ?_
    rw [hlen, align_paddedSize hk (by omega)]
    have hpos : (BitVec.ofNat 32 (paddedSize len (2 ^ k))).toNat = paddedSize len (2 ^ k) := by
      rw [BitVec.toNat_ofNat, Nat.mod_eq_of_lt (by omega)]
    unfold locateFrom locateRounds
    refine find_accept ?_ ?_
    · unfold inFile
      rw [decide_eq_true_eq, BitVec.lt_def, hpos, BitVec.toNat_ofNat, Nat.mod_eq_of_lt hsize]
      unfold imageHeaderBytes at hroom
      omega
    · unfold memHeader
      rw [hpos]
      exact hheader

/-- What the tools build is accepted by the check of the tool, and the locator
finds the second stage behind it. -/
theorem built_image_recognised (bin : List UInt8) (hsize : romCfgOff + romCfgBytes ≤ bin.length)
    (hmagic : word32 bin romCfgOff = romCfgMagic)
    (halign : word32 bin (romCfgOff + 8) = 0 ∨ ∃ k, word32 bin (romCfgOff + 8) = 2 ^ k)
    (addr ep : U32) :
    ∃ padded, mtkSplPad bin = some padded ∧
      let spl := mt7621SetHeader addr ep (zeroHeader ++ padded)
      mt7621VerifyHeader spl = true ∧
      ∀ (fill stage2 : List UInt8) (mem : ℕ → UInt8),
        let file := spl ++ fill ++ stage2
        (spl ++ fill).length = paddedSize spl.length (word32 bin (romCfgOff + 8)) →
        imageHeaderBytes ≤ stage2.length →
        headerValid (stage2.take imageHeaderBytes) = true →
        file.length < 2 ^ 32 → region mem 0 file.length = file →
        getMtkStage2ImagePtr mem (BitVec.ofNat 32 file.length) =
          .found (BitVec.ofNat 32 (spl ++ fill).length) := by
  refine ⟨_, mtkSplPad_some hmagic, ?_⟩
  dsimp only
  refine ⟨mt7621VerifyHeader_set .., fun fill stage2 mem hfill hstage2 hvalid hlt hmem => ?_⟩
  have hcfg := ofBytes_padded hsize hmagic
  have hlenPadded : (overwrite bin (romCfgOff + 4) (toLE 4 bin.length)).length = bin.length := by
    refine length_overwrite ?_
    rw [length_toLE]
    unfold romCfgOff romCfgBytes at *
    omega
  generalize overwrite bin (romCfgOff + 4) (toLE 4 bin.length) = padded at *
  have h16 : 16 ≤ padded.length := by
    unfold romCfgOff romCfgBytes at hsize
    omega
  have hblank := setFields_blank addr ep (setStageHeader addr padded)
  have hspl := length_mt7621SetHeader addr ep h16
  have hrecord := slice_mt7621SetHeader addr ep h16 romCfgBytes
  have htake := take_mt7621SetHeader addr ep padded
  generalize mt7621SetHeader addr ep (zeroHeader ++ padded) = spl at *
  have hlength : (spl ++ fill ++ stage2).length = (spl ++ fill).length + stage2.length :=
    List.length_append
  have hfirstPart : spl.length ≤ (spl ++ fill).length := by
    rw [List.length_append]
    exact Nat.le_add_right _ _
  have hroom : imageHeaderBytes + romCfgOff + romCfgBytes ≤ spl.length := by omega
  -- the header and the record are those of the first stage
  have hfirst : firstStageHeader (region mem 0 imageHeaderBytes) = true := by
    rw [region_of_file hmem (by omega), slice_append_left (by omega), slice_append_left (by omega),
      slice, List.drop_zero, htake, firstStageHeader, hblank.checkHcrc_seal,
      hblank.checkNandCrc_seal]
    exact Bool.or_true _
  have hmemCfg : memCfg mem = ⟨BitVec.ofNat 32 romCfgMagic, BitVec.ofNat 32 bin.length,
      BitVec.ofNat 32 (word32 bin (romCfgOff + 8))⟩ := by
    rw [memCfg, region_of_file hmem (by omega), slice_append_left (by omega),
      slice_append_left (by omega), hrecord, hcfg]
  have hheader : headerValid (region mem (spl ++ fill).length imageHeaderBytes) = true := by
    rw [region_of_file hmem (by omega), slice, List.drop_left' rfl]
    exact hvalid
  have hrecordValid : (memCfg mem).Valid := by
    rw [hmemCfg]
    show (BitVec.ofNat 32 romCfgMagic).toNat = romCfgMagic
    decide
  have hrecordSize : (memCfg mem).size + headerSize = BitVec.ofNat 32 spl.length := by
    have hheaderSize : headerSize = BitVec.ofNat 32 imageHeaderBytes := rfl
    rw [hmemCfg, hspl, hlenPadded, BitVec.ofNat_add, hheaderSize, BitVec.add_comm]
  have hrecordAlign : (memCfg mem).align.toNat = word32 bin (romCfgOff + 8) := by
    rw [hmemCfg, BitVec.toNat_ofNat, Nat.mod_eq_of_lt (word32_lt ..)]
  rw [getMtkStage2ImagePtr_of_firstStage hfirst, hfill]
  rw [hfill] at hheader hlength
  rw [← hrecordAlign] at halign hheader hlength ⊢
  exact locateStage2_padded hrecordValid hrecordSize halign (by omega) hlt hheader

def smallSpl : List UInt8 :=
  List.replicate romCfgOff 0 ++ toLE 4 romCfgMagic ++ toLE 4 0 ++ toLE 4 128

theorem built_image_recognised_small :
    ∃ padded, mtkSplPad smallSpl = some padded ∧
      let spl := mt7621SetHeader 0 0 (zeroHeader ++ padded)
      let file := spl ++ List.replicate 116 0 ++ emptyImage
      mt7621VerifyHeader spl = true ∧
        getMtkStage2ImagePtr (blit (fun _ => 0xff) 0 file) (BitVec.ofNat 32 file.length) =
          .found (BitVec.ofNat 32 256) := by
  obtain ⟨padded, hpad, hverify, hfound⟩ := built_image_recognised smallSpl (by decide) (by decide)
    (.inr ⟨7, by decide⟩) 0 0
  have hlenPadded : padded.length = 76 := by
    have hcase : (mtkSplPad smallSpl).map List.length = some 76 := by decide
    rw [hpad] at hcase
    exact Option.some.inj hcase
  have hspl := length_mt7621SetHeader 0 0 (show 16 ≤ padded.length by omega)
  refine ⟨padded, hpad, hverify, ?_⟩
  generalize mt7621SetHeader 0 0 (zeroHeader ++ padded) = spl at *
  have hlen : (spl ++ List.replicate 116 (0 : UInt8)).length = 256 := by
    rw [List.length_append, hspl, hlenPadded, List.length_replicate]
    rfl
  have hlong : imageHeaderBytes ≤ emptyImage.length := by decide +kernel
  have hshort : emptyImage.length < 256 := by decide +kernel
  rw [← hlen]
  refine hfound _ _ _ ?_ hlong (by decide +kernel) ?_ (region_blit ..)
  · rw [hlen, hspl, hlenPadded]
    decide
  · rw [List.length_append, hlen]
    omega

end Nwa50ax.Boot
