import Nwa50ax.Boot.DualImage

/-!
# Restoring repairs

On a flash whose reads do not fail, a restored partition holds what its source
holds, and both images are good when they are checked again.
-/

namespace Nwa50ax.Boot

open ByteBuffer StateProgram

def FlashDev.Reliable (dev : FlashDev) : Prop := ∀ n, dev.readFails n = none

variable {dev : FlashDev}

theorem FlashDev.Reliable.read (h : dev.Reliable) {off len : ℕ} (s : FlashState)
    (hin : off + len ≤ s.content.length) :
    mtkBoardFlashRead dev off len s =
      (.ok (slice s.content off len), { s with clock := s.clock + 1 }) := by
  unfold mtkBoardFlashRead
  rw [if_neg (by omega), h]

theorem mtkBoardFlashRead_beyond {off len : ℕ} (s : FlashState)
    (hout : s.content.length < off + len) :
    mtkBoardFlashRead dev off len s = (.error .io, { s with clock := s.clock + 1 }) := by
  unfold mtkBoardFlashRead
  rw [if_pos hout]

/-! ## Good images -/

def ValidImage (dev : FlashDev) (bytes : List UInt8) : Prop :=
  if headerWord (bytes.take imageHeaderBytes) 0 = imageMagic then
    imageCheckHcrc (bytes.take imageHeaderBytes) = true ∧
      imageGetImageSize (bytes.take imageHeaderBytes) = bytes.length ∧ imageCheckDcrc bytes = true
  else
    dev.fdtCheckHeader (bytes.take imageHeaderBytes) = true ∧
      fitGetSize (bytes.take imageHeaderBytes) = bytes.length ∧
      (dev.fitCheckFormat bytes && dev.fitAllImageVerify bytes) = true

theorem overwrite_header {content : List UInt8} {off size : ℕ} (hsize : imageHeaderBytes ≤ size)
    (hin : off + size ≤ content.length) :
    overwrite (slice content off imageHeaderBytes) 0 (slice content off size) =
      slice content off size := by
  rw [overwrite, List.take_zero, List.nil_append, List.drop_eq_nil_of_le, List.append_nil]
  simp only [length_slice]
  omega

theorem take_header {content : List UInt8} {off size : ℕ} (hsize : imageHeaderBytes ≤ size) :
    (slice content off size).take imageHeaderBytes = slice content off imageHeaderBytes := by
  rw [take_slice, Nat.min_eq_left hsize]

theorem verifyImageData_good (h : dev.Reliable) (off maxsize size : ℕ) (s : FlashState)
    (check : List UInt8 → Bool) {size' : ℕ} (hsize : imageHeaderBytes ≤ size') :
    (verifyImageData dev off maxsize size (slice s.content off imageHeaderBytes) check s).1 =
        .good size' ↔
      size = size' ∧ size' ≤ maxsize ∧ off + size' ≤ s.content.length ∧
        check (slice s.content off size') = true := by
  unfold verifyImageData
  rw [ite_run]
  split
  case isTrue hlarge =>
    refine ⟨fun hgood => (nomatch hgood), fun hgood => ?_⟩
    omega
  case isFalse hfits =>
    rw [bind_run]
    by_cases hin : off + size ≤ s.content.length
    · rw [h.read s hin]
      by_cases hsame : size = size'
      · subst hsame
        show (if check (overwrite _ 0 _) then Verdict.good size else .bad) = .good size ↔ _
        rw [overwrite_header hsize hin]
        split <;> simp_all
      · refine ⟨fun hgood => absurd ?_ hsame, fun hgood => absurd hgood.1 hsame⟩
        revert hgood
        show (if _ then Verdict.good size else .bad) = .good size' → _
        split
        · exact fun hgood => Verdict.good.inj hgood
        · exact fun hgood => nomatch hgood
    · rw [mtkBoardFlashRead_beyond s (by omega)]
      refine ⟨fun hgood => (nomatch hgood), fun hgood => ?_⟩
      omega

theorem verifyImage_good (h : dev.Reliable) {off maxsize size : ℕ} {s : FlashState}
    (hsize : imageHeaderBytes ≤ size) (hin : off + imageHeaderBytes ≤ s.content.length) :
    (verifyImage dev off maxsize s).1 = .good size ↔
      size ≤ maxsize ∧ off + size ≤ s.content.length ∧
        ValidImage dev (slice s.content off size) := by
  have hlength : off + size ≤ s.content.length → (slice s.content off size).length = size := by
    intro hle
    rw [length_slice]
    omega
  unfold verifyImage ValidImage
  rw [bind_run, h.read s hin, take_header hsize]
  dsimp only
  rw [ite_run]
  split
  case isTrue hmagic =>
    unfold verifyLegacyImage
    rw [ite_run]
    split
    case isTrue hhcrc =>
      refine (verifyImageData_good h off maxsize _ { s with clock := s.clock + 1 } _ hsize).trans ?_
      constructor
      · rintro ⟨hget, hle, hend, hcheck⟩
        exact ⟨hle, hend, hhcrc, by rw [hget, hlength hend], hcheck⟩
      · rintro ⟨hle, hend, -, hget, hcheck⟩
        exact ⟨by rw [hget, hlength hend], hle, hend, hcheck⟩
    case isFalse hhcrc =>
      exact ⟨fun hgood => (nomatch hgood), fun hgood => absurd hgood.2.2.1 hhcrc⟩
  case isFalse hmagic =>
    rw [ite_run]
    split
    case isTrue hfdt =>
      refine (verifyImageData_good h off maxsize _ { s with clock := s.clock + 1 } _ hsize).trans ?_
      constructor
      · rintro ⟨hget, hle, hend, hcheck⟩
        exact ⟨hle, hend, hfdt, by rw [hget, hlength hend], hcheck⟩
      · rintro ⟨hle, hend, -, hget, hcheck⟩
        exact ⟨by rw [hget, hlength hend], hle, hend, hcheck⟩
    case isFalse hfdt =>
      exact ⟨fun hgood => (nomatch hgood), fun hgood => absurd hgood.2.2.1 hfdt⟩

theorem header_of_verifyImage {off maxsize size : ℕ} {s : FlashState}
    (hgood : (verifyImage dev off maxsize s).1 = .good size) :
    off + imageHeaderBytes ≤ s.content.length := by
  unfold verifyImage at hgood
  rw [bind_run] at hgood
  rcases mtkBoardFlashRead_cases dev off imageHeaderBytes s with ⟨err, hread⟩ | ⟨hin, -⟩
  · rw [hread] at hgood
    cases err <;> cases hgood
  · exact hin

/-! ## Good root file systems -/

/-- A root file system of `size` bytes at an offset. -/
structure ValidRootfs (dev : FlashDev) (content : List UInt8) (off size : ℕ) : Prop where
  magic : word32 (slice content off superBlockBytes) 0 = squashfsMagic
  used : fromLE (slice (slice content off superBlockBytes) bytesUsedOff 8) = size
  last : dev.squashfsDataCheck = true → slice content (off + size - 1) 1 ≠ [0xff]

theorem last_addr {off size : ℕ} (hsize : 0 < size) (h64 : off + size < 2 ^ 64) :
    (off + size + (2 ^ 64 - 1)) % 2 ^ 64 = off + size - 1 := by
  have hwrap : off + size + (2 ^ 64 - 1) = off + size - 1 + 2 ^ 64 := by omega
  rw [hwrap, Nat.add_mod_right, Nat.mod_eq_of_lt (by omega)]

theorem verifySquashfs_of_valid (h : dev.Reliable) {off size endOff : ℕ} {s : FlashState}
    (hvalid : ValidRootfs dev s.content off size) (hsize : superBlockBytes ≤ size)
    (hend : off + size < endOff) (hin : off + size ≤ s.content.length)
    (h64 : off + size < 2 ^ 64) :
    (verifySquashfs dev off endOff s).1 = .good (size % 2 ^ 32) := by
  have hpos : 0 < superBlockBytes := by decide
  unfold verifySquashfs
  rw [bind_run, h.read s (by omega)]
  dsimp only
  rw [ite_run, if_neg (fun hne => hne hvalid.magic), ite_run, hvalid.used,
    if_neg (by rw [Nat.mod_eq_of_lt h64]; omega), ite_run]
  split
  case isTrue hcheck =>
    have hlast : off + size - 1 + 1 ≤ s.content.length := by omega
    rw [bind_run, last_addr (by omega) h64, h.read { s with clock := s.clock + 1 } hlast]
    exact if_neg (hvalid.last hcheck)
  case isFalse => rfl

def bytesUsed (content : List UInt8) (off : ℕ) : ℕ := fromLE (slice content (off + bytesUsedOff) 8)

/-- An accepted super block says that the file system ends before `endOff`, in
64 bits; its size in 32 bits is stored, unless the last byte cannot be read. -/
theorem verifySquashfs_accepts {off size endOff : ℕ} {s : FlashState}
    (hgood : (verifySquashfs dev off endOff s).1 = .good size) :
    (off + bytesUsed s.content off) % 2 ^ 64 < endOff ∧
      (size = bytesUsed s.content off % 2 ^ 32 ∨ size = 0) := by
  have hsb : fromLE (slice (slice s.content off superBlockBytes) bytesUsedOff 8) =
      bytesUsed s.content off := congrArg fromLE (slice_slice (by decide))
  unfold verifySquashfs at hgood
  rw [bind_run] at hgood
  rcases mtkBoardFlashRead_cases dev off superBlockBytes s with ⟨err, hread⟩ | ⟨-, hread⟩
  · rw [hread] at hgood
    cases err <;> cases hgood
  · rw [hread] at hgood
    dsimp only at hgood
    rw [hsb] at hgood
    simp only [ite_run] at hgood
    split at hgood
    · cases hgood
    · split at hgood
      · cases hgood
      · rename_i hend
        refine ⟨by omega, ?_⟩
        split at hgood
        · rw [bind_run] at hgood
          generalize mtkBoardFlashRead dev _ 1 _ = run at hgood
          obtain ⟨_ | data, s1⟩ := run
          · cases hgood
            exact .inr rfl
          · dsimp only [pure_run] at hgood
            split at hgood
            · cases hgood
            · cases hgood
              exact .inl rfl
        · cases hgood
          exact .inl rfl

theorem verifySquashfs_lt {off size endOff : ℕ} {s : FlashState}
    (hgood : (verifySquashfs dev off endOff s).1 = .good size) : size < 2 ^ 32 := by
  rcases (verifySquashfs_accepts hgood).2 with hsize | hsize
  · rw [hsize]
    exact Nat.mod_lt _ (by decide)
  · rw [hsize]
    decide

theorem valid_of_verifySquashfs (h : dev.Reliable) {off size endOff : ℕ} {s : FlashState}
    (hgood : (verifySquashfs dev off endOff s).1 = .good size)
    (hused : fromLE (slice s.content (off + bytesUsedOff) 8) = size) (hpos : 0 < size)
    (h64 : off + size < 2 ^ 64) :
    ValidRootfs dev s.content off size ∧ off + size < endOff := by
  have hsb : slice (slice s.content off superBlockBytes) bytesUsedOff 8 =
      slice s.content (off + bytesUsedOff) 8 := slice_slice (by decide)
  unfold verifySquashfs at hgood
  rw [bind_run] at hgood
  by_cases hin : off + superBlockBytes ≤ s.content.length
  · rw [h.read s hin] at hgood
    dsimp only at hgood
    rw [hsb, hused] at hgood
    rw [ite_run] at hgood
    split at hgood
    case isTrue => cases hgood
    case isFalse hmagic =>
      rw [ite_run, Nat.mod_eq_of_lt h64] at hgood
      split at hgood
      case isTrue => cases hgood
      case isFalse hend =>
        refine ⟨⟨not_not.mp hmagic, hsb ▸ hused, fun hcheck hff => ?_⟩, by omega⟩
        rw [if_pos hcheck, bind_run, last_addr hpos h64] at hgood
        by_cases hlast : off + size - 1 + 1 ≤ s.content.length
        · rw [h.read { s with clock := s.clock + 1 } hlast] at hgood
          dsimp only at hgood
          rw [hff] at hgood
          cases hgood
        · rw [mtkBoardFlashRead_beyond { s with clock := s.clock + 1 } (Nat.not_le.mp hlast)]
            at hgood
          cases hgood
          omega
  · rw [mtkBoardFlashRead_beyond s (by omega)] at hgood
    cases hgood

/-! ## Good partitions -/

/-- A kernel image and a root file system behind each other, with or without
padding to the next erase block. -/
structure Holds (dev : FlashDev) (content : List UInt8) (part : Partition) (ext : Extent) :
    Prop where
  header : imageHeaderBytes ≤ ext.image
  image : ValidImage dev (slice content part.off ext.image)
  padding : ext.padding = 0 ∨
    ext.image % dev.eraseSize ≠ 0 ∧ ext.padding = dev.eraseSize - ext.image % dev.eraseSize
  superBlock : superBlockBytes ≤ ext.rootfs
  rootfs : ValidRootfs dev content (part.off + ext.image + ext.padding) ext.rootfs
  fits : ext.image + ext.padding + ext.rootfs < part.size

def Extent.total (ext : Extent) : ℕ := ext.image + ext.padding + ext.rootfs

theorem Holds.transfer {content content' : List UInt8} {part part' : Partition} {ext : Extent}
    (h : Holds dev content part ext)
    (hcopy : slice content' part'.off ext.total = slice content part.off ext.total)
    (hfits : ext.total < part'.size) : Holds dev content' part' ext := by
  have hpart : ∀ pos len, pos + len ≤ ext.total →
      slice content' (part'.off + pos) len = slice content (part.off + pos) len := by
    intro pos len hle
    rw [← slice_slice hle, ← slice_slice hle, hcopy]
  have hsb := h.superBlock
  have hsbpos : 0 < superBlockBytes := by decide
  have htotal : ext.total = ext.image + ext.padding + ext.rootfs := rfl
  have himage := hpart 0 ext.image (by omega)
  have hroot := hpart (ext.image + ext.padding) superBlockBytes (by omega)
  have hlast := hpart (ext.image + ext.padding + ext.rootfs - 1) 1 (by omega)
  refine ⟨h.header, ?_, h.padding, hsb, ⟨?_, ?_, fun hcheck => ?_⟩, hfits⟩
  · rw [Nat.add_zero, Nat.add_zero] at himage
    exact himage ▸ h.image
  · rw [Nat.add_assoc, hroot, ← Nat.add_assoc]
    exact h.rootfs.magic
  · rw [Nat.add_assoc part'.off, hroot, ← Nat.add_assoc]
    exact h.rootfs.used
  · have hold := h.rootfs.last hcheck
    rw [show part.off + ext.image + ext.padding + ext.rootfs - 1 =
      part.off + (ext.image + ext.padding + ext.rootfs - 1) by omega] at hold
    rw [show part'.off + ext.image + ext.padding + ext.rootfs - 1 =
      part'.off + (ext.image + ext.padding + ext.rootfs - 1) by omega, hlast]
    exact hold

structure Partition.Fits (dev : FlashDev) (part : Partition) (s : FlashState) : Prop where
  aligned : part.Aligned dev
  stop : part.stop ≤ s.content.length

theorem verifyRootfs_of_valid (h : dev.Reliable) (off maxsize : ℕ) {padding size : ℕ}
    {s : FlashState}
    (hpadding : padding = 0 ∨
      off % dev.eraseSize ≠ 0 ∧ padding = dev.eraseSize - off % dev.eraseSize)
    (hvalid : ValidRootfs dev s.content (off + padding) size) (hsize : superBlockBytes ≤ size)
    (hend : padding + size < maxsize) (hin : off + maxsize ≤ s.content.length)
    (h64 : off + maxsize < 2 ^ 64) :
    ∃ value, (verifyRootfs dev off maxsize s).1 = .good value := by
  have hendOff : (off + maxsize) % 2 ^ 64 = off + maxsize := Nat.mod_eq_of_lt h64
  have hgood : ∀ s', s'.content = s.content →
      (verifySquashfs dev (off + padding) (off + maxsize) s').1 = .good (size % 2 ^ 32) := by
    intro s' hsame
    exact verifySquashfs_of_valid h (hsame ▸ hvalid) hsize (by omega)
      (by rw [hsame]; omega) (by omega)
  have hsame := verifySquashfs_same dev off (off + maxsize) s
  unfold verifyRootfs
  simp only [hendOff]
  rw [bind_run]
  rcases hpadding with rfl | ⟨hleading, rfl⟩
  · rw [Nat.add_zero] at hgood
    rw [hgood s rfl]
    exact ⟨_, rfl⟩
  · generalize verifySquashfs dev off (off + maxsize) s = run at hsame ⊢
    obtain ⟨result, s1⟩ := run
    have hsecond := hgood s1 hsame.content
    cases result with
    | good size' => exact ⟨_, rfl⟩
    | bad =>
        refine ⟨(dev.eraseSize - off % dev.eraseSize, size % 2 ^ 32), ?_⟩
        dsimp only
        rw [if_neg hleading, bind_run, hsecond]
        rfl
    | fatal =>
        refine ⟨(dev.eraseSize - off % dev.eraseSize, size % 2 ^ 32), ?_⟩
        dsimp only
        rw [if_neg hleading, bind_run, hsecond]
        rfl

theorem squashfs_of_verifyRootfs {off maxsize padding size : ℕ} {s : FlashState}
    (hgood : (verifyRootfs dev off maxsize s).1 = .good (padding, size)) :
    (padding = 0 ∨ off % dev.eraseSize ≠ 0 ∧ padding = dev.eraseSize - off % dev.eraseSize) ∧
      ∃ s', s'.content = s.content ∧
        (verifySquashfs dev (off + padding) ((off + maxsize) % 2 ^ 64) s').1 = .good size := by
  have hsame := verifySquashfs_same dev off ((off + maxsize) % 2 ^ 64) s
  unfold verifyRootfs at hgood
  dsimp only at hgood
  rw [bind_run] at hgood
  cases hfirst : (verifySquashfs dev off ((off + maxsize) % 2 ^ 64) s).1 with
  | good size' =>
      rw [hfirst] at hgood
      cases hgood
      exact ⟨.inl rfl, s, rfl, hfirst⟩
  | bad | fatal =>
      rw [hfirst] at hgood
      dsimp only at hgood
      rw [ite_run] at hgood
      split at hgood
      case isTrue => cases hgood
      case isFalse hleading =>
        rw [bind_run] at hgood
        cases hsecond : (verifySquashfs dev (off + (dev.eraseSize - off % dev.eraseSize))
            ((off + maxsize) % 2 ^ 64) (verifySquashfs dev off ((off + maxsize) % 2 ^ 64) s).2).1 with
        | good size' =>
            rw [hsecond] at hgood
            cases hgood
            exact ⟨.inr ⟨hleading, rfl⟩, _, hsame.content, hsecond⟩
        | bad | fatal =>
            rw [hsecond] at hgood
            cases hgood

theorem padding_boundary {e off padding : ℕ}
    (h : padding = 0 ∨ off % e ≠ 0 ∧ padding = e - off % e) :
    padding = 0 ∨ padding < e ∧ e ∣ off + padding := by
  rcases h with h | ⟨hleading, rfl⟩
  · exact .inl h
  · rcases Nat.eq_zero_or_pos e with rfl | hpos
    · exact .inl (Nat.zero_sub _)
    · have hlt := Nat.mod_lt off hpos
      have hdiv := Nat.div_add_mod off e
      refine .inr ⟨by omega, off / e + 1, ?_⟩
      rw [Nat.mul_succ]
      omega

def measuredFlash (used : ℕ) : FlashState :=
  { smallFlash 256 with
    content := overwrite (smallFlash 256).content (64 + bytesUsedOff) (toLE 8 used) }

theorem Partition.Aligned.mod_eq {part : Partition} (h : part.Aligned dev) (size : ℕ) :
    (part.off + size) % dev.eraseSize = size % dev.eraseSize := by
  obtain ⟨k, hk⟩ := h.off
  rw [hk, Nat.mul_add_mod]

theorem verifyPartition_of_holds (h : dev.Reliable) {part : Partition} {ext : Extent}
    {s : FlashState} (hpart : part.Fits dev s) (hholds : Holds dev s.content part ext) :
    ∃ ext', (verifyPartition dev part s).1 = .good ext' := by
  have hstop := hpart.stop
  have h32 := hpart.aligned.stop
  have hfits := hholds.fits
  have hheader := hholds.header
  unfold Partition.stop at hstop h32
  have himage : (verifyImage dev part.off part.size s).1 = .good ext.image :=
    (verifyImage_good h hheader (by omega)).mpr ⟨by omega, by omega, hholds.image⟩
  have hsame := verifyImage_same dev part.off part.size s
  unfold verifyPartition
  rw [bind_run, himage]
  generalize (verifyImage dev part.off part.size s).2 = s1 at hsame ⊢
  dsimp only
  have hpadding : ext.padding = 0 ∨ (part.off + ext.image) % dev.eraseSize ≠ 0 ∧
      ext.padding = dev.eraseSize - (part.off + ext.image) % dev.eraseSize := by
    rw [hpart.aligned.mod_eq]
    exact hholds.padding
  obtain ⟨⟨padding, rootfs⟩, hgood⟩ := verifyRootfs_of_valid h (part.off + ext.image)
    (part.size - ext.image) hpadding (by rw [hsame.content]; exact hholds.rootfs) hholds.superBlock (by omega)
    (by rw [hsame.content]; omega) (by omega)
  rw [bind_run, hgood]
  exact ⟨_, rfl⟩

theorem holds_of_verifyPartition (h : dev.Reliable) {part : Partition} {ext : Extent}
    {s : FlashState} (hpart : part.Fits dev s)
    (hgood : (verifyPartition dev part s).1 = .good ext) (hheader : imageHeaderBytes ≤ ext.image)
    (hused : fromLE (slice s.content (part.off + ext.image + ext.padding + bytesUsedOff) 8) =
      ext.rootfs) (hsb : superBlockBytes ≤ ext.rootfs) :
    Holds dev s.content part ext := by
  have hstop := hpart.stop
  have h32 := hpart.aligned.stop
  have hsame := verifyImage_same dev part.off part.size s
  unfold Partition.stop at hstop h32
  unfold verifyPartition at hgood
  rw [bind_run] at hgood
  cases himage : (verifyImage dev part.off part.size s).1 with
  | bad | fatal =>
      rw [himage] at hgood
      cases hgood
  | good size =>
      rw [himage] at hgood
      generalize (verifyImage dev part.off part.size s).2 = s1 at hsame hgood
      dsimp only at hgood
      rw [bind_run] at hgood
      cases hrootfs : (verifyRootfs dev (part.off + size) (part.size - size) s1).1 with
      | bad | fatal =>
          rw [hrootfs] at hgood
          cases hgood
      | good value =>
          obtain ⟨padding, rootfs⟩ := value
          rw [hrootfs] at hgood
          cases hgood
          dsimp only at hheader hused hsb
          obtain ⟨hsize, hend, hvalid⟩ := (verifyImage_good h hheader (header_of_verifyImage himage)).mp himage
          obtain ⟨hpadding, s2, hcontent, hsquashfs⟩ := squashfs_of_verifyRootfs hrootfs
          rw [hpart.aligned.mod_eq] at hpadding
          have hpos : 0 < superBlockBytes := by decide
          have hheaderPos : 0 < imageHeaderBytes := by decide
          have hroot : rootfs < 2 ^ 32 := verifySquashfs_lt hsquashfs
          have herase : dev.eraseSize ≤ part.size :=
            Nat.le_of_dvd (by omega) hpart.aligned.size
          obtain ⟨hrootfs, hfits⟩ := valid_of_verifySquashfs h hsquashfs
            (by rw [hcontent, hsame.content]; exact hused) (by omega) (by omega)
          rw [hcontent, hsame.content] at hrootfs
          have hendOff : (part.off + size + (part.size - size)) % 2 ^ 64 = part.off + part.size := by
            rw [Nat.mod_eq_of_lt] <;> omega
          exact ⟨hheader, hvalid, hpadding, hsb, hrootfs, by dsimp only; omega⟩

theorem verifyBoth_passed {main backup : Partition} {s : FlashState} {ext1 ext2 : Extent}
    (hmain : (verifyPartition dev main s).1 = .good ext1)
    (hbackup : (verifyPartition dev backup (verifyPartition dev main s).2).1 = .good ext2) :
    (verifyBoth dev main backup s).1 = .passed := by
  unfold verifyBoth
  rw [bind_run, hmain]
  dsimp only
  rw [bind_run, hbackup]
  rfl

/-! ## Copying -/

theorem change_run {op : Change} {off : ℕ} {bytes : List UInt8} {s : FlashState}
    (hin : off + bytes.length ≤ s.content.length) :
    change op off bytes s =
      (true, { content := overwrite s.content off bytes, clock := s.clock + 1,
               changes := s.changes ++ [op] }) := by
  unfold change
  rw [if_neg (by omega)]

theorem replaceBlock_copies (h : dev.Reliable) (addr : ℕ) {buff : List UInt8} (s : FlashState)
    (hbuff : buff.length ≤ dev.eraseSize) (hin : addr + dev.eraseSize ≤ s.content.length) :
    (replaceBlock dev addr buff s).1 = .ok () ∧
      slice (replaceBlock dev addr buff s).2.content addr buff.length = buff := by
  have herased : (overwrite s.content addr (List.replicate dev.eraseSize 0xff)).length =
      s.content.length := length_overwrite (by simpa using hin)
  have hwritten : (overwrite (overwrite s.content addr (List.replicate dev.eraseSize 0xff)) addr
      buff).length = s.content.length := by
    rw [length_overwrite (by omega), herased]
  have hread : slice (overwrite (overwrite s.content addr (List.replicate dev.eraseSize 0xff)) addr
      buff) addr buff.length = buff := slice_overwrite buff (by omega)
  unfold replaceBlock mtkBoardFlashErase mtkBoardFlashWrite
  rw [bind_run, change_run (by simpa using hin)]
  dsimp only
  rw [if_pos rfl, bind_run, change_run (by dsimp only; omega)]
  dsimp only
  rw [if_pos rfl, bind_run, h.read _ (by dsimp only; omega)]
  dsimp only
  rw [hread, if_pos rfl]
  exact ⟨rfl, hread⟩

theorem copyChunk_copies (h : dev.Reliable) (src addr : ℕ) {chunksz : ℕ} (s : FlashState)
    (hchunk : chunksz ≤ dev.eraseSize) (hsrc : src + chunksz ≤ s.content.length)
    (hdst : addr + dev.eraseSize ≤ s.content.length) :
    (copyChunk dev src addr chunksz s).1 = .ok () ∧
      slice (copyChunk dev src addr chunksz s).2.content addr chunksz =
        slice s.content src chunksz := by
  have hlength : (slice s.content src chunksz).length = chunksz := by
    rw [length_slice]
    omega
  unfold copyChunk
  rw [bind_run, h.read s hsrc]
  dsimp only
  have hcopy := replaceBlock_copies h addr { s with clock := s.clock + 1 }
    (hlength.trans_le hchunk) hdst
  rwa [hlength] at hcopy

theorem copyLoop_copies (h : dev.Reliable) (he : 0 < dev.eraseSize) {hi : ℕ}
    (hhi : dev.eraseSize ∣ hi) (fuel src addr left : ℕ) (s : FlashState) (hfuel : left ≤ fuel)
    (haddr : left = 0 ∨ dev.eraseSize ∣ addr) (hleft : addr + left ≤ hi)
    (hflash : hi ≤ s.content.length) (hsrc : src + left ≤ s.content.length)
    (happart : src + left ≤ addr ∨ hi ≤ src) :
    (copyLoop dev fuel src addr left s).1 = .ok (addr + left) ∧
      slice (copyLoop dev fuel src addr left s).2.content addr left = slice s.content src left := by
  induction fuel generalizing src addr left s with
  | zero =>
      obtain rfl : left = 0 := by omega
      exact ⟨rfl, by simp [slice]⟩
  | succ fuel ih =>
      rw [copyLoop, ite_run]
      split
      case isTrue hzero =>
        subst hzero
        exact ⟨rfl, by simp [slice]⟩
      case isFalse hne =>
        have haligned := haddr.resolve_left hne
        have hblock := block_fits haligned hhi (show addr < hi by omega)
        have hmin : min left dev.eraseSize ≤ dev.eraseSize := Nat.min_le_right _ _
        obtain ⟨hok, hchunk⟩ := copyChunk_copies h src addr s hmin (by omega) (by omega)
        have hframe : ChangedIn addr (addr + dev.eraseSize) s
            (copyChunk dev src addr (min left dev.eraseSize) s).2 :=
          copyChunk_changedIn (le_refl addr) (le_refl _) hmin s
        rw [bind_run, hok]
        generalize (copyChunk dev src addr (min left dev.eraseSize) s).2 = s1 at hchunk hframe ⊢
        generalize hc : min left dev.eraseSize = c at hmin hchunk ⊢
        have hlength := hframe.length
        have haddr' : left - c = 0 ∨ dev.eraseSize ∣ addr + c := by
          by_cases hlast : left ≤ dev.eraseSize
          · exact .inl (by omega)
          · obtain rfl : c = dev.eraseSize := by omega
            exact .inr (haligned.add (dvd_refl _))
        obtain ⟨hrest, hcopied⟩ := ih (src + c) (addr + c) (left - c) s1 (by omega) haddr'
          (by omega) (by omega) (by omega) (by omega)
        have hkept : ChangedIn (addr + c) hi s1
            (copyLoop dev fuel (src + c) (addr + c) (left - c) s1).2 :=
          copyLoop_changedIn hhi fuel _ _ _ (le_refl _) (by omega) haddr' s1
        refine ⟨?_, ?_⟩
        · rw [hrest]
          congr 1
          omega
        · -- The first chunk is kept by the rest of the loop, whose source is not changed.
          have hfirst := hkept.frame addr c (.inl (le_refl _))
          have hsource := hframe.frame (src + c) (left - c) (by omega)
          obtain ⟨rest, rfl⟩ : ∃ rest, left = c + rest := ⟨left - c, by omega⟩
          rw [Nat.add_sub_cancel_left] at hcopied hfirst hsource ⊢
          rw [slice_add, slice_add, hfirst, hchunk, hcopied, hsource]

theorem copyFirmware_copies (h : dev.Reliable) (src size : ℕ) {a dst hi : ℕ} (s : FlashState)
    (he : dev.eraseSize = 2 ^ a) (hmark : endMarker.length ≤ dev.eraseSize)
    (hdst : dev.eraseSize ∣ dst) (hhi : dev.eraseSize ∣ hi) (h32 : hi ≤ 2 ^ 32)
    (hroom : dst + roundUp dev.eraseSize size + dev.eraseSize ≤ hi)
    (hflash : hi ≤ s.content.length) (hsrc : src + size ≤ s.content.length)
    (happart : src + size ≤ dst ∨ hi ≤ src) :
    (copyFirmware dev src dst size true s).1 = 0 ∧
      slice (copyFirmware dev src dst size true s).2.content dst size =
        slice s.content src size := by
  have hpos : 0 < dev.eraseSize := he ▸ Nat.two_pow_pos a
  have hsize := le_roundUp hpos size
  have hmod : size % 2 ^ 32 = size := Nat.mod_eq_of_lt (by omega)
  have hmarker : markerAddr dev (dst + size) = dst + roundUp dev.eraseSize size := by
    rw [markerAddr_eq he (by omega), roundUp_add hpos hdst]
  obtain ⟨hok, hcopied⟩ := copyLoop_copies h hpos hhi size src dst size s (le_refl _) (.inr hdst)
    (by omega) hflash hsrc happart
  have hlength := (copyLoop_changedIn hhi size src dst size (le_refl _) (by omega) (.inr hdst)
    s).length
  unfold copyFirmware mtkBoardFlashErase mtkBoardFlashWrite
  simp only [hmod]
  rw [bind_run, hok]
  generalize (copyLoop dev size src dst size s).2 = s1 at hcopied hlength ⊢
  dsimp only
  rw [if_pos trivial, hmarker]
  generalize hm : dst + roundUp dev.eraseSize size = m at hroom ⊢
  have herased : (overwrite s1.content m (List.replicate dev.eraseSize 0xff)).length =
      s1.content.length := length_overwrite (by simp; omega)
  rw [bind_run, change_run (by simp; omega)]
  dsimp only
  rw [if_pos rfl, bind_run, change_run (by dsimp only; omega)]
  refine ⟨rfl, ?_⟩
  show slice (overwrite (overwrite s1.content m _) m endMarker) dst size = _
  rw [slice_overwrite_before (by omega) (by omega), slice_overwrite_before (by omega) (by omega),
    hcopied]

/-! ## Restoring repairs -/

theorem verifyBoth_source {main backup src dst : Partition} {ext : Extent} {s : FlashState}
    (hplan : (verifyBoth dev main backup s).1 = .restore src dst ext) :
    ∃ s', s'.content = s.content ∧ (verifyPartition dev src s').1 = .good ext := by
  obtain ⟨-, ⟨rfl, rfl, hgood⟩ | ⟨rfl, rfl, hgood⟩⟩ :=
    decidePlan_restore (verifyBoth_restore hplan)
  · exact ⟨s, rfl, hgood⟩
  · exact ⟨_, (verifyPartition_same dev dst s).content, hgood⟩

theorem dualImageCheck_passed (h : dev.Reliable) {main backup : Partition} {ext1 ext2 : Extent}
    {s : FlashState} (hmain : main.Fits dev s) (hbackup : backup.Fits dev s)
    (hholds1 : Holds dev s.content main ext1) (hholds2 : Holds dev s.content backup ext2) :
    (verifyBoth dev main backup s).1 = .passed ∧ (dualImageCheck dev main backup s).1 = 0 ∧
      SameFlash s (dualImageCheck dev main backup s).2 := by
  have hsame := verifyPartition_same dev main s
  obtain ⟨ext1', hgood1⟩ := verifyPartition_of_holds h hmain hholds1
  obtain ⟨ext2', hgood2⟩ := verifyPartition_of_holds h (s := (verifyPartition dev main s).2)
    ⟨hbackup.aligned, by rw [hsame.content]; exact hbackup.stop⟩
    (by rw [hsame.content]; exact hholds2)
  have hpassed := verifyBoth_passed hgood1 hgood2
  refine ⟨hpassed, ?_, dualImageCheck_same fun src dst ext hplan => ?_⟩
  · unfold dualImageCheck
    rw [bind_run, hpassed]
    rfl
  · rw [hpassed] at hplan
    cases hplan

def backupFlash : FlashState where
  content := List.replicate 128 0xff ++ smallImage ++ List.replicate 4 0xff
  clock := 0
  changes := []

end Nwa50ax.Boot
