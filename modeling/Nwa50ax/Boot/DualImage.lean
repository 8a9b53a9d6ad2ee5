import Nwa50ax.Lib.StateSpec
import Nwa50ax.Nmbm.InfoTable

/-!
# Checking two firmware images

`dual_image_check` verifies the kernel image and the root file system in two
partitions of the flash.  If one of them is broken, it copies the other one
over it and puts an end marker behind the copy.
-/

namespace Nwa50ax.Boot

open ByteBuffer StateProgram

/-! ## The flash -/

inductive ReadError where
  | badMsg
  | io
  deriving DecidableEq, Repr

/-- What the board and the configuration give.  `readFails` says which of the
flash operations, counted from the start, is a read that fails.  The functions
of the device tree library see the first bytes of the image in memory. -/
structure FlashDev where
  eraseSize : ℕ
  readFails : ℕ → Option ReadError
  fdtCheckHeader : List UInt8 → Bool
  fitCheckFormat : List UInt8 → Bool
  fitAllImageVerify : List UInt8 → Bool
  squashfsDataCheck : Bool
  restoreKernelOnly : Bool

inductive Change where
  | erase (off len : ℕ)
  | write (off len : ℕ)
  deriving DecidableEq, Repr

structure FlashState where
  content : List UInt8
  clock : ℕ
  changes : List Change
  deriving DecidableEq, Repr

abbrev FlashM := StateM FlashState

def mtkBoardFlashRead (dev : FlashDev) (off len : ℕ) : FlashM (Except ReadError (List UInt8)) :=
  fun s =>
    (if s.content.length < off + len then .error .io
      else
        match dev.readFails s.clock with
        | some err => .error err
        | none => .ok (slice s.content off len), { s with clock := s.clock + 1 })

/-- A change of the flash; `false` if it goes beyond its end. -/
def change (op : Change) (off : ℕ) (bytes : List UInt8) : FlashM Bool := fun s =>
  if s.content.length < off + bytes.length then
    (false, { s with clock := s.clock + 1, changes := s.changes ++ [op] })
  else
    (true,
      { content := overwrite s.content off bytes
        clock := s.clock + 1
        changes := s.changes ++ [op] })

def mtkBoardFlashErase (off len : ℕ) : FlashM Bool :=
  change (.erase off len) off (List.replicate len 0xff)

def mtkBoardFlashWrite (off : ℕ) (bytes : List UInt8) : FlashM Bool :=
  change (.write off bytes.length) off bytes

/-! ## Verifying an image -/

/-- The result of a check: 0 and a value, 1, or a negative number. -/
inductive Verdict (α : Type) where
  | good (value : α)
  | bad
  | fatal
  deriving DecidableEq, Repr

def imageHeaderBytes : ℕ := 64

def imageMagic : ℕ := 0x27051956

def headerWord (hdr : List UInt8) (off : ℕ) : ℕ := fromLE (slice hdr off 4).reverse

def crc32 (bytes : List UInt8) : ℕ := Nmbm.crc32NoComp 0xffffffff bytes ^^^ 0xffffffff

def imageCheckHcrc (hdr : List UInt8) : Bool :=
  crc32 (overwrite (hdr.take imageHeaderBytes) 4 [0, 0, 0, 0]) = headerWord hdr 4

def imageGetSize (hdr : List UInt8) : ℕ := headerWord hdr 12

def imageGetImageSize (hdr : List UInt8) : ℕ := (imageGetSize hdr + imageHeaderBytes) % 2 ^ 32

def imageCheckDcrc (image : List UInt8) : Bool :=
  crc32 (slice image imageHeaderBytes (imageGetSize image)) = headerWord image 24

def fitGetSize (fit : List UInt8) : ℕ := headerWord fit 4

/-- The common part of `verify_legacy_image` and `verify_fit_image`: the image
is read behind its header and checked. -/
def verifyImageData (dev : FlashDev) (off maxsize size : ℕ) (hdr : List UInt8)
    (check : List UInt8 → Bool) : FlashM (Verdict ℕ) :=
  if maxsize < size then pure .bad
  else do
    match ← mtkBoardFlashRead dev off size with
    | .error .badMsg => pure .bad
    | .error .io => pure .fatal
    | .ok bytes => pure (if check (overwrite hdr 0 bytes) then .good size else .bad)

def verifyLegacyImage (dev : FlashDev) (off maxsize : ℕ) (hdr : List UInt8) :
    FlashM (Verdict ℕ) :=
  if imageCheckHcrc hdr then
    verifyImageData dev off maxsize (imageGetImageSize hdr) hdr imageCheckDcrc
  else pure .bad

def verifyFitImage (dev : FlashDev) (off maxsize : ℕ) (hdr : List UInt8) : FlashM (Verdict ℕ) :=
  verifyImageData dev off maxsize (fitGetSize hdr) hdr fun fit =>
    dev.fitCheckFormat fit && dev.fitAllImageVerify fit

def verifyImage (dev : FlashDev) (off maxsize : ℕ) : FlashM (Verdict ℕ) := do
  match ← mtkBoardFlashRead dev off imageHeaderBytes with
  | .error .badMsg => pure .bad
  | .error .io => pure .fatal
  | .ok hdr =>
      if headerWord hdr 0 = imageMagic then verifyLegacyImage dev off maxsize hdr
      else if dev.fdtCheckHeader hdr then verifyFitImage dev off maxsize hdr
      else pure .bad

def squashfsMagic : ℕ := 0x73717368

def superBlockBytes : ℕ := 48

def bytesUsedOff : ℕ := 40

/-- The size of the root file system, in 32 bits.  Where the last byte cannot
be read, the size is not stored and stays 0. -/
def verifySquashfs (dev : FlashDev) (off endOff : ℕ) : FlashM (Verdict ℕ) := do
  match ← mtkBoardFlashRead dev off superBlockBytes with
  | .error .badMsg => pure .bad
  | .error .io => pure .fatal
  | .ok sb =>
      if word32 sb 0 ≠ squashfsMagic then pure .bad
      else
        let size := fromLE (slice sb bytesUsedOff 8)
        if endOff ≤ (off + size) % 2 ^ 64 then pure .bad
        else if dev.squashfsDataCheck then do
          match ← mtkBoardFlashRead dev ((off + size + (2 ^ 64 - 1)) % 2 ^ 64) 1 with
          | .error _ => pure (.good 0)
          | .ok data => pure (if data = [0xff] then .bad else .good (size % 2 ^ 32))
        else pure (.good (size % 2 ^ 32))

def verifyRootfs (dev : FlashDev) (off maxsize : ℕ) : FlashM (Verdict (ℕ × ℕ)) := do
  let endOff := (off + maxsize) % 2 ^ 64
  match ← verifySquashfs dev off endOff with
  | .good size => pure (.good (0, size))
  | _ =>
      let leading := off % dev.eraseSize
      if leading = 0 then pure .bad
      else
        let extraBytes := dev.eraseSize - leading
        match ← verifySquashfs dev (off + extraBytes) endOff with
        | .good size => pure (.good (extraBytes, size))
        | _ => pure .bad

structure Partition where
  off : ℕ
  size : ℕ
  deriving DecidableEq, Repr

structure Extent where
  image : ℕ
  padding : ℕ
  rootfs : ℕ
  deriving DecidableEq, Repr

def verifyPartition (dev : FlashDev) (part : Partition) : FlashM (Verdict Extent) := do
  match ← verifyImage dev part.off part.size with
  | .fatal => pure .fatal
  | .bad => pure .bad
  | .good imageSize =>
      match ← verifyRootfs dev (part.off + imageSize) (part.size - imageSize) with
      | .good (padding, rootfs) => pure (.good ⟨imageSize, padding, rootfs⟩)
      | _ => pure .bad

/-! ## Restoring -/

def eio : ℤ := -5

def replaceBlock (dev : FlashDev) (addr : ℕ) (buff : List UInt8) : FlashM (Except ℤ Unit) := do
  if ← mtkBoardFlashErase addr dev.eraseSize then
    if ← mtkBoardFlashWrite addr buff then
      match ← mtkBoardFlashRead dev addr buff.length with
      | .error _ => pure (.error eio)
      | .ok verify => if buff = verify then pure (.ok ()) else pure (.error 1)
    else pure (.error eio)
  else pure (.error eio)

def copyChunk (dev : FlashDev) (srcOff addr chunksz : ℕ) : FlashM (Except ℤ Unit) := do
  match ← mtkBoardFlashRead dev srcOff chunksz with
  | .error _ => pure (.error eio)
  | .ok buff => replaceBlock dev addr buff

/-- The loop of `copy_firmware`; the address behind the copy, or what
`copy_firmware` returns. -/
def copyLoop (dev : FlashDev) : ℕ → ℕ → ℕ → ℕ → FlashM (Except ℤ ℕ)
  | 0, _, addr, _ => pure (.ok addr)
  | fuel + 1, srcOff, addr, sizeleft =>
      if sizeleft = 0 then pure (.ok addr)
      else do
        let chunksz := min sizeleft dev.eraseSize
        match ← copyChunk dev srcOff addr chunksz with
        | .error ret => pure (.error ret)
        | .ok () => copyLoop dev fuel (srcOff + chunksz) (addr + chunksz) (sizeleft - chunksz)

/-- `(addr + erasesize - 1) & ~(erasesize - 1)`, where `erasesize` and so the
mask have 32 bits and `addr` has 64. -/
def markerAddr (dev : FlashDev) (addr : ℕ) : ℕ :=
  (addr + dev.eraseSize - 1) % 2 ^ 64 &&& (2 ^ 32 - dev.eraseSize)

def endMarker : List UInt8 := [0xde, 0xad, 0xc0, 0xde]

def copyFirmware (dev : FlashDev) (srcOff dstOff size : ℕ) (deadc0de : Bool) : FlashM ℤ := do
  let sizeleft := size % 2 ^ 32
  match ← copyLoop dev sizeleft srcOff dstOff sizeleft with
  | .error ret => pure ret
  | .ok addr =>
      if deadc0de then
        let addr := markerAddr dev addr
        if ← mtkBoardFlashErase addr dev.eraseSize then
          if ← mtkBoardFlashWrite addr endMarker then pure 0 else pure eio
        else pure eio
      else pure 0

/-- What `dual_image_check` does after verifying both images. -/
inductive Plan where
  | bypass
  | bothBroken
  | passed
  | tooLarge
  | restore (src dst : Partition) (ext : Extent)
  deriving DecidableEq, Repr

/-- The number of bytes to restore; `size_t` has 32 bits. -/
def totalSize (dev : FlashDev) (ext : Extent) : ℕ :=
  if dev.restoreKernelOnly then ext.image
  else ext.image + (ext.padding + ext.rootfs) % 2 ^ 32

def planRestore (dev : FlashDev) (src dst : Partition) (ext : Extent) : Plan :=
  if dst.size < totalSize dev ext then .tooLarge else .restore src dst ext

def decidePlan (dev : FlashDev) (main backup : Partition) :
    Verdict Extent → Verdict Extent → Plan
  | _, .fatal => .bypass
  | .good _, .good _ => .passed
  | .good ext, _ => planRestore dev main backup ext
  | _, .good ext => planRestore dev backup main ext
  | _, _ => .bothBroken

def verifyBoth (dev : FlashDev) (main backup : Partition) : FlashM Plan := do
  match ← verifyPartition dev main with
  | .fatal => pure .bypass
  | image1 => do
      let image2 ← verifyPartition dev backup
      pure (decidePlan dev main backup image1 image2)

/-- `dual_image_check`, for partitions that have been found. -/
def dualImageCheck (dev : FlashDev) (main backup : Partition) : FlashM ℤ := do
  match ← verifyBoth dev main backup with
  | .bypass => pure 0
  | .bothBroken => pure 3
  | .passed => pure 0
  | .tooLarge => pure 4
  | .restore src dst ext =>
      copyFirmware dev src.off dst.off (totalSize dev ext) !dev.restoreKernelOnly

/-! ## What a run changes -/

def Change.off : Change → ℕ
  | .erase off _ => off
  | .write off _ => off

def Change.len : Change → ℕ
  | .erase _ len => len
  | .write _ len => len

structure SameFlash (s s' : FlashState) : Prop where
  content : s'.content = s.content
  changes : s'.changes = s.changes

instance : Std.Refl SameFlash where
  refl _ := ⟨rfl, rfl⟩

instance : IsTrans FlashState SameFlash where
  trans _ _ _ hab hbc := ⟨hbc.content.trans hab.content, hbc.changes.trans hab.changes⟩

structure ChangedIn (lo hi : ℕ) (s s' : FlashState) : Prop where
  length : s'.content.length = s.content.length
  frame : ∀ pos len, pos + len ≤ lo ∨ hi ≤ pos → slice s'.content pos len = slice s.content pos len
  changes : ∃ new, s'.changes = s.changes ++ new ∧ ∀ op ∈ new, lo ≤ op.off ∧ op.off + op.len ≤ hi

instance (lo hi : ℕ) : Std.Refl (ChangedIn lo hi) where
  refl _ := ⟨rfl, fun _ _ _ => rfl, [], by simp⟩

instance (lo hi : ℕ) : IsTrans FlashState (ChangedIn lo hi) where
  trans _ _ _ hab hbc := by
    obtain ⟨new, hnew, hin⟩ := hab.changes
    obtain ⟨new', hnew', hin'⟩ := hbc.changes
    refine ⟨hbc.length.trans hab.length, fun pos len hout => ?_, new ++ new', ?_, ?_⟩
    · rw [hbc.frame pos len hout, hab.frame pos len hout]
    · rw [hnew', hnew, List.append_assoc]
    · intro op hop
      rcases List.mem_append.mp hop with hop | hop
      · exact hin op hop
      · exact hin' op hop

theorem SameFlash.changedIn {s s' : FlashState} (h : SameFlash s s') (lo hi : ℕ) :
    ChangedIn lo hi s s' :=
  ⟨by rw [h.content], fun _ _ _ => by rw [h.content], [], by simp [h.changes]⟩

theorem mtkBoardFlashRead_cases (dev : FlashDev) (off len : ℕ) (s : FlashState) :
    (∃ err, mtkBoardFlashRead dev off len s = (.error err, { s with clock := s.clock + 1 })) ∨
      off + len ≤ s.content.length ∧
        mtkBoardFlashRead dev off len s =
          (.ok (slice s.content off len), { s with clock := s.clock + 1 }) := by
  unfold mtkBoardFlashRead
  split
  · exact .inl ⟨_, rfl⟩
  · split
    · exact .inl ⟨_, rfl⟩
    · exact .inr ⟨by omega, rfl⟩

theorem mtkBoardFlashRead_same (dev : FlashDev) (off len : ℕ) :
    Keeps SameFlash (mtkBoardFlashRead dev off len) := fun _ => ⟨rfl, rfl⟩

theorem change_changedIn {lo hi off : ℕ} {op : Change} {bytes : List UInt8} (hoff : op.off = off)
    (hlen : op.len = bytes.length) (hlo : lo ≤ off) (hhi : off + bytes.length ≤ hi) :
    Keeps (ChangedIn lo hi) (change op off bytes) := by
  intro s
  have hin : ∀ op' ∈ [op], lo ≤ op'.off ∧ op'.off + op'.len ≤ hi := by
    intro op' hop'
    obtain rfl := List.mem_singleton.mp hop'
    omega
  unfold change
  split
  · exact ⟨rfl, fun _ _ _ => rfl, [op], rfl, hin⟩
  · have hroom : off + bytes.length ≤ s.content.length := by omega
    refine ⟨length_overwrite hroom, fun pos len hout => ?_, [op], rfl, hin⟩
    rcases hout with hbefore | hbehind
    · exact slice_overwrite_before (by omega) (by omega)
    · exact slice_overwrite_behind (by omega) (by omega)

theorem mtkBoardFlashErase_changedIn {lo hi off len : ℕ} (hlo : lo ≤ off) (hhi : off + len ≤ hi) :
    Keeps (ChangedIn lo hi) (mtkBoardFlashErase off len) :=
  change_changedIn rfl (by simp [Change.len]) hlo (by simpa using hhi)

theorem mtkBoardFlashWrite_changedIn {lo hi off : ℕ} {bytes : List UInt8} (hlo : lo ≤ off)
    (hhi : off + bytes.length ≤ hi) : Keeps (ChangedIn lo hi) (mtkBoardFlashWrite off bytes) :=
  change_changedIn rfl rfl hlo hhi

/-! ## Verifying only reads -/

theorem verifyImageData_same (dev : FlashDev) (off maxsize size : ℕ) (hdr : List UInt8)
    (check : List UInt8 → Bool) :
    Keeps SameFlash (verifyImageData dev off maxsize size hdr check) := by
  refine Keeps.ite (fun _ => Keeps.pure _) fun _ => ?_
  refine Keeps.bind (mtkBoardFlashRead_same dev off size) fun result => ?_
  match result with
  | .error .badMsg => exact Keeps.pure _
  | .error .io => exact Keeps.pure _
  | .ok bytes => exact Keeps.pure _

theorem verifyImage_same (dev : FlashDev) (off maxsize : ℕ) :
    Keeps SameFlash (verifyImage dev off maxsize) := by
  refine Keeps.bind (mtkBoardFlashRead_same dev off _) fun result => ?_
  match result with
  | .error .badMsg => exact Keeps.pure _
  | .error .io => exact Keeps.pure _
  | .ok hdr =>
      refine Keeps.ite (fun _ => ?_) fun _ => Keeps.ite (fun _ => ?_) fun _ => Keeps.pure _
      · exact Keeps.ite (fun _ => verifyImageData_same _ _ _ _ _ _) fun _ => Keeps.pure _
      · exact verifyImageData_same _ _ _ _ _ _

theorem verifySquashfs_same (dev : FlashDev) (off endOff : ℕ) :
    Keeps SameFlash (verifySquashfs dev off endOff) := by
  refine Keeps.bind (mtkBoardFlashRead_same dev off _) fun result => ?_
  match result with
  | .error .badMsg => exact Keeps.pure _
  | .error .io => exact Keeps.pure _
  | .ok sb =>
      refine Keeps.ite (fun _ => Keeps.pure _) fun _ => Keeps.ite (fun _ => Keeps.pure _) fun _ => ?_
      refine Keeps.ite (fun _ => ?_) fun _ => Keeps.pure _
      refine Keeps.bind (mtkBoardFlashRead_same dev _ _) fun result => ?_
      match result with
      | .error _ => exact Keeps.pure _
      | .ok data => exact Keeps.pure _

theorem verifyRootfs_same (dev : FlashDev) (off maxsize : ℕ) :
    Keeps SameFlash (verifyRootfs dev off maxsize) := by
  have hsecond : Keeps SameFlash (if off % dev.eraseSize = 0 then pure .bad else do
      match ← verifySquashfs dev (off + (dev.eraseSize - off % dev.eraseSize))
        ((off + maxsize) % 2 ^ 64) with
      | .good size => pure (.good (dev.eraseSize - off % dev.eraseSize, size))
      | _ => pure .bad : FlashM (Verdict (ℕ × ℕ))) := by
    refine Keeps.ite (fun _ => Keeps.pure _) fun _ => ?_
    refine Keeps.bind (verifySquashfs_same _ _ _) fun result => ?_
    cases result <;> exact Keeps.pure _
  refine Keeps.bind (verifySquashfs_same _ _ _) fun result => ?_
  cases result with
  | good size => exact Keeps.pure _
  | bad => exact hsecond
  | fatal => exact hsecond

theorem verifyPartition_same (dev : FlashDev) (part : Partition) :
    Keeps SameFlash (verifyPartition dev part) := by
  refine Keeps.bind (verifyImage_same _ _ _) fun result => ?_
  cases result with
  | good imageSize =>
      refine Keeps.bind (verifyRootfs_same _ _ _) fun result => ?_
      cases result <;> exact Keeps.pure _
  | bad => exact Keeps.pure _
  | fatal => exact Keeps.pure _

theorem verifyBoth_same (dev : FlashDev) (main backup : Partition) :
    Keeps SameFlash (verifyBoth dev main backup) := by
  have hrest : ∀ image1, Keeps SameFlash (do
      let image2 ← verifyPartition dev backup
      pure (decidePlan dev main backup image1 image2) : FlashM Plan) := fun image1 =>
    Keeps.bind (verifyPartition_same dev backup) fun image2 => Keeps.pure _
  refine Keeps.bind (verifyPartition_same dev main) fun result => ?_
  cases result with
  | good ext => exact hrest _
  | bad => exact hrest _
  | fatal => exact Keeps.pure _

theorem decidePlan_restore {dev : FlashDev} {main backup src dst : Partition} {ext : Extent}
    {image1 image2 : Verdict Extent}
    (h : decidePlan dev main backup image1 image2 = .restore src dst ext) :
    totalSize dev ext ≤ dst.size ∧
      (src = main ∧ dst = backup ∧ image1 = .good ext ∨
        src = backup ∧ dst = main ∧ image2 = .good ext) := by
  have hplan : ∀ src' dst' ext', planRestore dev src' dst' ext' = .restore src dst ext →
      totalSize dev ext ≤ dst.size ∧ src = src' ∧ dst = dst' ∧ ext = ext' := by
    intro src' dst' ext' h
    unfold planRestore at h
    split at h
    · cases h
    · cases h
      exact ⟨by omega, rfl, rfl, rfl⟩
  cases image1 with
  | good ext1 =>
      cases image2 with
      | good ext2 => cases h
      | bad =>
          obtain ⟨hle, rfl, rfl, rfl⟩ := hplan _ _ _ h
          exact ⟨hle, .inl ⟨rfl, rfl, rfl⟩⟩
      | fatal => cases h
  | bad =>
      cases image2 with
      | good ext2 =>
          obtain ⟨hle, rfl, rfl, rfl⟩ := hplan _ _ _ h
          exact ⟨hle, .inr ⟨rfl, rfl, rfl⟩⟩
      | bad => cases h
      | fatal => cases h
  | fatal =>
      cases image2 with
      | good ext2 =>
          obtain ⟨hle, rfl, rfl, rfl⟩ := hplan _ _ _ h
          exact ⟨hle, .inr ⟨rfl, rfl, rfl⟩⟩
      | bad => cases h
      | fatal => cases h

theorem verifyBoth_restore {dev : FlashDev} {main backup src dst : Partition} {ext : Extent}
    {s : FlashState} (h : (verifyBoth dev main backup s).1 = .restore src dst ext) :
    decidePlan dev main backup (verifyPartition dev main s).1
      (verifyPartition dev backup (verifyPartition dev main s).2).1 = .restore src dst ext := by
  unfold verifyBoth at h
  rw [bind_run] at h
  generalize verifyPartition dev main s = run1 at h ⊢
  obtain ⟨image1, s1⟩ := run1
  cases image1 with
  | good ext => exact h
  | bad => exact h
  | fatal => cases h

/-! ## Copying stays inside the partition -/

def roundUp (e n : ℕ) : ℕ := (n + e - 1) / e * e

theorem le_roundUp {e : ℕ} (he : 0 < e) (n : ℕ) : n ≤ roundUp e n := by
  have hdiv := Nat.div_add_mod (n + e - 1) e
  have hmod := Nat.mod_lt (n + e - 1) he
  rw [Nat.mul_comm] at hdiv
  unfold roundUp
  omega

theorem roundUp_add {e off : ℕ} (he : 0 < e) (hoff : e ∣ off) (n : ℕ) :
    roundUp e (off + n) = off + roundUp e n := by
  obtain ⟨k, rfl⟩ := hoff
  unfold roundUp
  rw [show e * k + n + e - 1 = e * k + (n + e - 1) by omega, Nat.mul_add_div he, Nat.add_mul,
    Nat.mul_comm k e]

theorem and_two_pow_sub {a x : ℕ} (ha : a ≤ 32) (hx : x < 2 ^ 32) :
    x &&& (2 ^ 32 - 2 ^ a) = x / 2 ^ a * 2 ^ a := by
  have hmask : 2 ^ 32 - 2 ^ a = (2 ^ (32 - a) - 1) <<< a := by
    rw [Nat.shiftLeft_eq, Nat.sub_mul, ← pow_add, Nat.sub_add_cancel ha, Nat.one_mul]
  have hshift : x / 2 ^ a * 2 ^ a = (x >>> a) <<< a := by
    rw [Nat.shiftLeft_eq, Nat.shiftRight_eq_div_pow]
  rw [hmask, hshift]
  refine Nat.eq_of_testBit_eq fun i => ?_
  rw [Nat.testBit_and, Nat.testBit_shiftLeft, Nat.testBit_shiftLeft, Nat.testBit_two_pow_sub_one,
    Nat.testBit_shiftRight]
  by_cases hi : a ≤ i
  · by_cases hbit : i < 32
    · simp [hi, show i - a < 32 - a by omega]
    · have hzero : x.testBit i = false :=
        Nat.testBit_lt_two_pow (hx.trans_le (Nat.pow_le_pow_right (by decide) (by omega)))
      simp [hi, hzero]
  · simp [hi]

theorem markerAddr_eq {dev : FlashDev} {a addr : ℕ} (he : dev.eraseSize = 2 ^ a)
    (haddr : addr + dev.eraseSize ≤ 2 ^ 32) :
    markerAddr dev addr = roundUp dev.eraseSize addr := by
  have hpos : 0 < 2 ^ a := Nat.two_pow_pos a
  have ha : a ≤ 32 := by
    by_contra hlt
    have := Nat.pow_lt_pow_right (show 1 < 2 by decide) (show 32 < a by omega)
    omega
  have h64 : addr + 2 ^ a - 1 < 2 ^ 64 := by
    have : (2 : ℕ) ^ 32 < 2 ^ 64 := by decide
    omega
  rw [markerAddr, roundUp, he, Nat.mod_eq_of_lt h64, and_two_pow_sub ha (by omega)]

theorem block_fits {e addr hi : ℕ} (haddr : e ∣ addr) (hhi : e ∣ hi) (hlt : addr < hi) :
    addr + e ≤ hi := by
  obtain ⟨i, rfl⟩ := haddr
  obtain ⟨j, rfl⟩ := hhi
  have hij : i + 1 ≤ j := by
    by_contra hle
    have := Nat.mul_le_mul_left e (show j ≤ i by omega)
    omega
  calc e * i + e = e * (i + 1) := by ring
    _ ≤ e * j := Nat.mul_le_mul_left e hij

theorem replaceBlock_changedIn {dev : FlashDev} {lo hi addr : ℕ} {buff : List UInt8}
    (hlo : lo ≤ addr) (hblock : addr + dev.eraseSize ≤ hi) (hbuff : buff.length ≤ dev.eraseSize) :
    Keeps (ChangedIn lo hi) (replaceBlock dev addr buff) := by
  refine Keeps.bind (mtkBoardFlashErase_changedIn hlo hblock) fun erased => ?_
  refine Keeps.ite (fun _ => ?_) fun _ => Keeps.pure _
  refine Keeps.bind (mtkBoardFlashWrite_changedIn hlo (by omega)) fun written => ?_
  refine Keeps.ite (fun _ => ?_) fun _ => Keeps.pure _
  refine Keeps.bind ((mtkBoardFlashRead_same _ _ _).mono fun _ _ h => h.changedIn lo hi)
    fun verify => ?_
  cases verify with
  | error err => exact Keeps.pure _
  | ok verify => exact Keeps.ite (fun _ => Keeps.pure _) fun _ => Keeps.pure _

theorem copyChunk_changedIn {dev : FlashDev} {lo hi src addr chunksz : ℕ} (hlo : lo ≤ addr)
    (hblock : addr + dev.eraseSize ≤ hi) (hchunk : chunksz ≤ dev.eraseSize) :
    Keeps (ChangedIn lo hi) (copyChunk dev src addr chunksz) := by
  intro s
  have hsame : SameFlash s { s with clock := s.clock + 1 } := ⟨rfl, rfl⟩
  unfold copyChunk
  rw [bind_run]
  rcases mtkBoardFlashRead_cases dev src chunksz s with ⟨err, hread⟩ | ⟨hin, hread⟩
  · rw [hread]
    exact hsame.changedIn lo hi
  · rw [hread]
    have hlength : (slice s.content src chunksz).length ≤ dev.eraseSize := by
      rw [length_slice]
      omega
    exact IsTrans.trans _ _ _ (hsame.changedIn lo hi)
      (replaceBlock_changedIn hlo hblock hlength _)

theorem copyLoop_changedIn {dev : FlashDev} {lo hi : ℕ} (hhi : dev.eraseSize ∣ hi)
    (fuel src addr left : ℕ) (hlo : lo ≤ addr) (hleft : addr + left ≤ hi)
    (haddr : left = 0 ∨ dev.eraseSize ∣ addr) :
    Keeps (ChangedIn lo hi) (copyLoop dev fuel src addr left) := by
  induction fuel generalizing src addr left with
  | zero => exact Keeps.pure _
  | succ fuel ih =>
      refine Keeps.ite (fun _ => Keeps.pure _) fun hne => ?_
      have haligned : dev.eraseSize ∣ addr := haddr.resolve_left hne
      have hblock := block_fits haligned hhi (show addr < hi by omega)
      refine Keeps.bind (copyChunk_changedIn hlo hblock (Nat.min_le_right _ _)) fun result => ?_
      cases result with
      | error ret => exact Keeps.pure _
      | ok _ =>
          refine ih _ _ _ (by omega) (by omega) ?_
          by_cases hlast : left ≤ dev.eraseSize
          · exact .inl (by omega)
          · rw [Nat.min_eq_right (by omega)]
            exact .inr (haligned.add (dvd_refl _))

theorem copyLoop_addr {dev : FlashDev} (he : 0 < dev.eraseSize) {fuel src addr left : ℕ}
    (hfuel : left ≤ fuel) {s : FlashState} {addr' : ℕ}
    (h : (copyLoop dev fuel src addr left s).1 = .ok addr') : addr' = addr + left := by
  induction fuel generalizing src addr left s with
  | zero =>
      cases h
      omega
  | succ fuel ih =>
      rw [copyLoop, ite_run] at h
      split at h
      case isTrue hzero =>
        cases h
        omega
      case isFalse hne =>
        rw [bind_run] at h
        generalize copyChunk dev src addr (min left dev.eraseSize) s = run at h
        obtain ⟨result, s1⟩ := run
        cases result with
        | error ret => cases h
        | ok _ =>
            have haddr := ih (by omega) h
            omega

theorem copyFirmware_changedIn {dev : FlashDev} (src size : ℕ) {a dst hi : ℕ}
    (he : dev.eraseSize = 2 ^ a) (hmark : endMarker.length ≤ dev.eraseSize)
    (hdst : dev.eraseSize ∣ dst) (hhi : dev.eraseSize ∣ hi) (h32 : hi ≤ 2 ^ 32) (hroom : dst + roundUp dev.eraseSize size + dev.eraseSize ≤ hi)
    (deadc0de : Bool) :
    Keeps (ChangedIn dst hi) (copyFirmware dev src dst size deadc0de) := by
  have hpos : 0 < dev.eraseSize := he ▸ Nat.two_pow_pos a
  have hsize := le_roundUp hpos size
  have hmod : size % 2 ^ 32 = size := Nat.mod_eq_of_lt (by omega)
  intro s
  unfold copyFirmware
  simp only [hmod]
  rw [bind_run]
  have hloop := copyLoop_changedIn hhi size src dst size (le_refl _) (by omega) (.inr hdst) s
  have haddr : ∀ addr, (copyLoop dev size src dst size s).1 = .ok addr → addr = dst + size :=
    fun addr => copyLoop_addr hpos (le_refl size)
  generalize copyLoop dev size src dst size s = run at hloop haddr ⊢
  obtain ⟨result, s1⟩ := run
  cases result with
  | error ret => exact hloop
  | ok addr =>
      obtain rfl := haddr addr rfl
      have hmarker : markerAddr dev (dst + size) = dst + roundUp dev.eraseSize size := by
        rw [markerAddr_eq he (by omega), roundUp_add hpos hdst]
      refine IsTrans.trans _ _ _ hloop (Keeps.ite (fun _ => ?_) (fun _ => Keeps.pure _) s1)
      simp only [hmarker]
      refine Keeps.bind (mtkBoardFlashErase_changedIn (by omega) hroom) fun erased => ?_
      refine Keeps.ite (fun _ => ?_) fun _ => Keeps.pure _
      refine Keeps.bind (mtkBoardFlashWrite_changedIn (by omega) (by omega)) fun written => ?_
      exact Keeps.ite (fun _ => Keeps.pure _) fun _ => Keeps.pure _

/-! ## Restoring stays inside the partition -/

def Partition.stop (part : Partition) : ℕ := part.off + part.size

structure Partition.Aligned (dev : FlashDev) (part : Partition) : Prop where
  off : dev.eraseSize ∣ part.off
  size : dev.eraseSize ∣ part.size
  stop : part.stop ≤ 2 ^ 32

def Partition.Disjoint (part other : Partition) : Prop :=
  part.stop ≤ other.off ∨ other.stop ≤ part.off

theorem verifyBoth_partitions {dev : FlashDev} {main backup src dst : Partition} {ext : Extent}
    {s : FlashState} (h : (verifyBoth dev main backup s).1 = .restore src dst ext) :
    src = main ∧ dst = backup ∨ src = backup ∧ dst = main := by
  obtain ⟨-, ⟨hsrc, hdst, -⟩ | ⟨hsrc, hdst, -⟩⟩ := decidePlan_restore (verifyBoth_restore h)
  · exact .inl ⟨hsrc, hdst⟩
  · exact .inr ⟨hsrc, hdst⟩

theorem dualImageCheck_restore {dev : FlashDev} {main backup src dst : Partition} {ext : Extent}
    {s : FlashState} (h : (verifyBoth dev main backup s).1 = .restore src dst ext) :
    dualImageCheck dev main backup s =
      copyFirmware dev src.off dst.off (totalSize dev ext) (!dev.restoreKernelOnly)
        (verifyBoth dev main backup s).2 := by
  unfold dualImageCheck
  rw [bind_run, h]

theorem dualImageCheck_same {dev : FlashDev} {main backup : Partition} {s : FlashState}
    (h : ∀ src dst ext, (verifyBoth dev main backup s).1 ≠ .restore src dst ext) :
    SameFlash s (dualImageCheck dev main backup s).2 := by
  have hverify := verifyBoth_same dev main backup s
  unfold dualImageCheck
  rw [bind_run]
  generalize verifyBoth dev main backup s = run at h hverify ⊢
  obtain ⟨plan, s1⟩ := run
  cases plan with
  | restore src dst ext => exact absurd rfl (h src dst ext)
  | bypass => exact hverify
  | bothBroken => exact hverify
  | passed => exact hverify
  | tooLarge => exact hverify

theorem dualImageCheck_changedIn {dev : FlashDev} {main backup src dst : Partition} {ext : Extent}
    {s : FlashState} {a : ℕ} (he : dev.eraseSize = 2 ^ a)
    (hmark : endMarker.length ≤ dev.eraseSize) (hdst : dst.Aligned dev)
    (hplan : (verifyBoth dev main backup s).1 = .restore src dst ext)
    (hroom : roundUp dev.eraseSize (totalSize dev ext) + dev.eraseSize ≤ dst.size) :
    ChangedIn dst.off dst.stop s (dualImageCheck dev main backup s).2 := by
  have hcopy := copyFirmware_changedIn src.off (totalSize dev ext) he hmark hdst.off
    (hdst.off.add hdst.size) hdst.stop (by omega) (!dev.restoreKernelOnly)
    (verifyBoth dev main backup s).2
  rw [dualImageCheck_restore hplan]
  exact IsTrans.trans _ _ _ ((verifyBoth_same dev main backup s).changedIn _ _) hcopy

theorem restore_partitions {dev : FlashDev} {main backup src dst : Partition} {ext : Extent}
    {s : FlashState} {P : Partition → Prop}
    (hplan : (verifyBoth dev main backup s).1 = .restore src dst ext) (hmain : P main)
    (hbackup : P backup) (hdisjoint : main.Disjoint backup) :
    P src ∧ P dst ∧ src.Disjoint dst := by
  rcases verifyBoth_partitions hplan with ⟨rfl, rfl⟩ | ⟨rfl, rfl⟩
  · exact ⟨hmain, hbackup, hdisjoint⟩
  · exact ⟨hbackup, hmain, Or.symm hdisjoint⟩

def smallDev : FlashDev where
  eraseSize := 64
  readFails := fun _ => none
  fdtCheckHeader := fun _ => false
  fitCheckFormat := fun _ => false
  fitAllImageVerify := fun _ => false
  squashfsDataCheck := true
  restoreKernelOnly := false

def smallImage : List UInt8 :=
  [0x27, 0x05, 0x19, 0x56, 0x33, 0xa9, 0x13, 0x15] ++ List.replicate 56 0 ++
    toLE 4 squashfsMagic ++ List.replicate 36 0 ++ toLE 8 60 ++ List.replicate 12 1

def smallFlash (size : ℕ) : FlashState where
  content := smallImage ++ List.replicate (2 * size - smallImage.length) 0xff ++
    List.replicate 64 7
  clock := 0
  changes := []

end Nwa50ax.Boot
