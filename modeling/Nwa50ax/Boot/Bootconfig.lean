import Nwa50ax.Lib.Bytes
import Nwa50ax.Lib.PowerCut

/-!
# The boot record

The bootconfig area of the flash records the state of both firmware images and
the image to boot.  At every start `zy_init` reads it, and `atgo` boots a new
image once, after recording it as failed, and the recorded image otherwise.
-/

namespace Nwa50ax.Boot

open ByteBuffer

/-! ## The record in memory -/

inductive ImageState where
  | none
  | newImage
  | successImage
  | failImage
  deriving DecidableEq, Repr

def ImageState.toBits : ImageState → ℕ
  | .none => 0
  | .newImage => 1
  | .successImage => 2
  | .failImage => 3

def ImageState.ofBits (n : ℕ) : ImageState :=
  match n % 4 with
  | 0 => .none
  | 1 => .newImage
  | 2 => .successImage
  | _ => .failImage

structure ImageInfo where
  state : ImageState
  log : ℕ
  deriving DecidableEq, Repr

structure DualImageInfo where
  bootImage : ℕ
  upgradeImage : ℕ
  image : List ImageInfo
  deriving DecidableEq, Repr

def numOfImage : ℕ := 2

def dualImageInfoBytes : ℕ := 8 + 12 * numOfImage

def dualImageImgstateMask : ℕ := 0xc
def dualImageImglogMask : ℕ := 0x2
def bootImageImageMask : ℕ := 0x1
def bootconfigSize : ℕ := 0x20000

/-- The loop of `posOfStartbit` that skips the zero bits below the mask. -/
def skipZeros : ℕ → ℕ → ℕ → ℕ × ℕ
  | 0, n, b => (n, b)
  | fuel + 1, n, b => if b = 0 ∨ b % 2 = 1 then (n, b) else skipZeros fuel (n + 1) (b / 2)

def countOnes : ℕ → ℕ → ℕ
  | 0, _ => 0
  | fuel + 1, b => if b % 2 = 0 then 0 else countOnes fuel (b / 2) + 1

def posOfStartbit (b : ℕ) : ℕ × ℕ :=
  let (n, rest) := skipZeros 32 0 b
  (n, (1 <<< countOnes 32 rest) - 1)

def field (mask data : ℕ) : ℕ := (data >>> (posOfStartbit mask).1) &&& (posOfStartbit mask).2

def place (mask value : ℕ) : ℕ := (value &&& (posOfStartbit mask).2) <<< (posOfStartbit mask).1

def unpackImage (data : ℕ) : ImageInfo where
  state := ImageState.ofBits (field dualImageImgstateMask data)
  log := field dualImageImglogMask data

def packImage (info : ImageInfo) : ℕ :=
  place dualImageImgstateMask info.state.toBits ||| place dualImageImglogMask info.log

/-! ## Reading and writing the record -/

def imageByteCount : ℕ := numOfImage / 2 + numOfImage % 2

/-- The loop of `dumpDualImageInfoFromBootconfig`; the first byte belongs to
the images with the highest numbers. -/
def dumpImages (bytes : List UInt8) : ℕ → List ImageInfo → List ImageInfo
  | 0, image => image
  | num + 1, image =>
      let data := (bytes.headD 0).toNat
      let arrNum := num * 2
      let image :=
        if arrNum ≠ numOfImage - 1 then image.set (arrNum + 1) (unpackImage (data >>> 4))
        else image
      dumpImages bytes.tail num (image.set arrNum (unpackImage data))

def dumpDualImageInfoFromBootconfig (buf : List UInt8) : DualImageInfo :=
  let bootImage := field bootImageImageMask (buf.getD imageByteCount 0).toNat
  { bootImage := bootImage
    upgradeImage := ((bootImage + 1) % numOfImage) &&& bootImageImageMask
    image := dumpImages buf imageByteCount (List.replicate numOfImage ⟨.none, 0⟩) }

def packImages (info : DualImageInfo) : ℕ → List UInt8
  | 0 => []
  | num + 1 =>
      let arrNum := num * 2
      let high :=
        if arrNum ≠ numOfImage - 1 then packImage (info.image.getD (arrNum + 1) ⟨.none, 0⟩)
        else 0
      let low := packImage (info.image.getD arrNum ⟨.none, 0⟩)
      UInt8.ofNat (high <<< 4 ||| low) :: packImages info num

def packDualImageInfo (info : DualImageInfo) : List UInt8 :=
  let record := packImages info imageByteCount ++
    [UInt8.ofNat (place bootImageImageMask info.bootImage)]
  record ++ List.replicate (dualImageInfoBytes - record.length) 0

inductive FlashOp where
  | readBootconfig
  | readMrd
  | eraseBootconfig
  | programPage (off : ℕ) (bytes : List UInt8)
  | bootFirmware (image : ℕ)
  deriving DecidableEq, Repr

/-- The programs that `nmbm write` issues for a buffer, page by page. -/
def programPages (pageSize off : ℕ) : ℕ → List UInt8 → List FlashOp
  | 0, _ => []
  | fuel + 1, bytes =>
      if bytes = [] then []
      else
        .programPage off (bytes.take pageSize) ::
          programPages pageSize (off + pageSize) fuel (bytes.drop pageSize)

/-- The record replaces the first bytes of what has been read before, and the
whole area is erased and written. -/
def writeDualImageInfoToBootconfig (pageSize : ℕ) (info : DualImageInfo) (buf : List UInt8) :
    List FlashOp :=
  let bytes := overwrite buf 0 (packDualImageInfo info)
  .eraseBootconfig :: programPages pageSize 0 bytes.length bytes

def setImageState (info : DualImageInfo) (image : ℕ) (state : ImageState) : DualImageInfo :=
  { info with
    image := info.image.set image { info.image.getD image ⟨.none, 0⟩ with state := state } }

def DualImageInfo.stateOf (info : DualImageInfo) (image : ℕ) : ImageState :=
  (info.image.getD image ⟨.none, 0⟩).state

/-- The loop of `checkHaveNewImage` over the `count` images from `imageNum` on. -/
def findNewImage (info : DualImageInfo) (imageNum : ℕ) : ℕ → Option ℕ
  | 0 => none
  | count + 1 =>
      if info.stateOf imageNum = .newImage then some imageNum
      else findNewImage info (imageNum + 1) count

/-- The image to boot, and the flash operations that record it as failed. -/
def checkHaveNewImage (pageSize : ℕ) (info : DualImageInfo) (buf : List UInt8) :
    ℕ × List FlashOp :=
  match findNewImage info 0 numOfImage with
  | some imageNum =>
      (imageNum, writeDualImageInfoToBootconfig pageSize
        (setImageState info imageNum .failImage) buf)
  | none => (info.bootImage, [])

/-- `atgo` without an argument: image 1 is `firmware_1`, any other `firmware`. -/
def doAtgo (pageSize : ℕ) (info : DualImageInfo) (buf : List UInt8) : List FlashOp :=
  let (imageNum, ops) := checkHaveNewImage pageSize info buf
  ops ++ [.bootFirmware (if imageNum = 1 then 1 else 0)]

/-- `zy_init`, then `atgo`. -/
def bootOps (pageSize : ℕ) (bootconfig : List UInt8) : List FlashOp :=
  .readBootconfig :: .readMrd ::
    doAtgo pageSize (dumpDualImageInfoFromBootconfig bootconfig) bootconfig

/-! ## Power losses -/

/-- What is left when power is lost: the bootconfig area, and which images have
been booted so far. -/
structure Board where
  bootconfig : List UInt8
  booted : List ℕ
  deriving DecidableEq, Repr

def FlashOp.apply : FlashOp → Board → Board
  | .readBootconfig, board => board
  | .readMrd, board => board
  | .eraseBootconfig, board => { board with bootconfig := List.replicate bootconfigSize 0xff }
  | .programPage off bytes, board =>
      { board with bootconfig := overwrite board.bootconfig off bytes }
  | .bootFirmware image, board => { board with booted := board.booted ++ [image] }

def boardMachine (pageSize : ℕ) : PowerCut.Machine Board FlashOp where
  ops board := bootOps pageSize board.bootconfig
  apply := FlashOp.apply

@[simp] theorem boardMachine_apply (pageSize : ℕ) : (boardMachine pageSize).apply = FlashOp.apply :=
  rfl

theorem boardMachine_start (pageSize : ℕ) (board : Board) (cut : ℕ) :
    (boardMachine pageSize).start board cut =
      (boardMachine pageSize).perform board ((bootOps pageSize board.bootconfig).take cut) := rfl

def CutAtErase (pageSize : ℕ) (board : Board) (cut : ℕ) : Prop :=
  ((bootOps pageSize board.bootconfig).take cut).getLast? = some .eraseBootconfig

instance (pageSize : ℕ) (board : Board) (cut : ℕ) : Decidable (CutAtErase pageSize board cut) :=
  inferInstanceAs (Decidable (_ = _))

/-! ## What the record decodes to -/

theorem dumpDualImageInfoFromBootconfig_cons (states boot : UInt8) (rest : List UInt8) :
    dumpDualImageInfoFromBootconfig (states :: boot :: rest) =
      { bootImage := field bootImageImageMask boot.toNat
        upgradeImage := ((field bootImageImageMask boot.toNat + 1) % numOfImage) &&&
          bootImageImageMask
        image := [unpackImage states.toNat, unpackImage (states.toNat >>> 4)] } := rfl

theorem dumpDualImageInfoFromBootconfig_congr {buf buf' : List UInt8} (hbuf : 2 ≤ buf.length)
    (h : buf'.take 2 = buf.take 2) :
    dumpDualImageInfoFromBootconfig buf' = dumpDualImageInfoFromBootconfig buf := by
  obtain ⟨a, b, rest, rfl⟩ : ∃ a b rest, buf = a :: b :: rest := by
    match buf, hbuf with
    | a :: b :: rest, _ => exact ⟨a, b, rest, rfl⟩
  match buf', h with
  | a' :: b' :: rest', h =>
      simp only [List.take_succ_cons, List.take_zero, List.cons.injEq, and_true] at h
      rw [h.1, h.2]
      rfl

/-- Every byte of an erased area is `0xff`: both images have failed, and image
1 is the one to boot. -/
theorem dump_erased : dumpDualImageInfoFromBootconfig (List.replicate bootconfigSize 0xff) =
    { bootImage := 1, upgradeImage := 0, image := [⟨.failImage, 1⟩, ⟨.failImage, 1⟩] } := by
  rw [show bootconfigSize = (bootconfigSize - 2) + 1 + 1 from rfl, List.replicate_succ,
    List.replicate_succ, dumpDualImageInfoFromBootconfig_cons]
  decide

structure DualImageInfo.Fits (info : DualImageInfo) : Prop where
  bootImage : info.bootImage ≤ 1
  image : ∃ low high : ImageInfo, info.image = [low, high] ∧ low.log ≤ 1 ∧ high.log ≤ 1

theorem field_log_le (data : ℕ) : field dualImageImglogMask data ≤ 1 := by
  have h : (posOfStartbit dualImageImglogMask).2 = 1 := by decide
  rw [field, h]
  exact Nat.and_le_right

theorem field_bootImage_le (data : ℕ) : field bootImageImageMask data ≤ 1 := by
  have h : (posOfStartbit bootImageImageMask).2 = 1 := by decide
  rw [field, h]
  exact Nat.and_le_right

theorem dump_fits (buf : List UInt8) : (dumpDualImageInfoFromBootconfig buf).Fits where
  bootImage := field_bootImage_le _
  image := ⟨_, _, rfl, field_log_le _, field_log_le _⟩

theorem DualImageInfo.Fits.setImageState {info : DualImageInfo} (h : info.Fits) {image : ℕ}
    (himage : image < 2) (state : ImageState) : (setImageState info image state).Fits := by
  obtain ⟨low, high, hlist, hlow, hhigh⟩ := h.image
  refine ⟨h.bootImage, ?_⟩
  have hcases : image = 0 ∨ image = 1 := by omega
  rcases hcases with rfl | rfl
  · exact ⟨{ low with state := state }, high, by simp [Boot.setImageState, hlist], hlow, hhigh⟩
  · exact ⟨low, { high with state := state }, by simp [Boot.setImageState, hlist], hlow, hhigh⟩

theorem unpackImage_packImage {low high : ImageInfo} (hlow : low.log ≤ 1) (hhigh : high.log ≤ 1) :
    unpackImage (UInt8.ofNat (packImage high <<< 4 ||| packImage low)).toNat = low ∧
      unpackImage ((UInt8.ofNat (packImage high <<< 4 ||| packImage low)).toNat >>> 4) = high := by
  obtain ⟨lowState, lowLog⟩ := low
  obtain ⟨highState, highLog⟩ := high
  have hl : lowLog = 0 ∨ lowLog = 1 := by simp only at hlow; omega
  have hh : highLog = 0 ∨ highLog = 1 := by simp only at hhigh; omega
  rcases hl with rfl | rfl <;> rcases hh with rfl | rfl <;> cases lowState <;>
    cases highState <;> decide

theorem dump_packDualImageInfo {info : DualImageInfo} (h : info.Fits) (rest : List UInt8) :
    (dumpDualImageInfoFromBootconfig (packDualImageInfo info ++ rest)).bootImage =
        info.bootImage ∧
      (dumpDualImageInfoFromBootconfig (packDualImageInfo info ++ rest)).image = info.image := by
  obtain ⟨low, high, hlist, hlow, hhigh⟩ := h.image
  have hboot : info.bootImage = 0 ∨ info.bootImage = 1 := by have := h.bootImage; omega
  have hpack : packDualImageInfo info =
      UInt8.ofNat (packImage high <<< 4 ||| packImage low) ::
        UInt8.ofNat (place bootImageImageMask info.bootImage) :: List.replicate 30 0 := by
    simp [packDualImageInfo, packImages, imageByteCount, numOfImage, hlist, dualImageInfoBytes]
  rw [hpack, List.cons_append, List.cons_append, dumpDualImageInfoFromBootconfig_cons]
  obtain ⟨hunpackLow, hunpackHigh⟩ := unpackImage_packImage hlow hhigh
  refine ⟨?_, ?_⟩
  · show field bootImageImageMask (UInt8.ofNat (place _ info.bootImage)).toNat = _
    rcases hboot with hboot | hboot <;> rw [hboot] <;> decide
  · rw [hunpackLow, hunpackHigh, hlist]

theorem length_packDualImageInfo_pos (info : DualImageInfo) :
    2 ≤ (packDualImageInfo info).length := by
  simp [packDualImageInfo, packImages, imageByteCount, numOfImage]

/-! ## What a start issues -/

theorem findNewImage_none {info : DualImageInfo}
    (h : ∀ image < numOfImage, info.stateOf image ≠ .newImage) :
    findNewImage info 0 numOfImage = none := by
  simp [findNewImage, numOfImage, h 0 (by decide), h 1 (by decide)]

theorem findNewImage_other {info : DualImageInfo} {g : ℕ} (hg : g ≤ 1)
    (hcurrent : info.stateOf g = .successImage) (hother : info.stateOf (1 - g) = .newImage) :
    findNewImage info 0 numOfImage = some (1 - g) := by
  have hcases : g = 0 ∨ g = 1 := by omega
  rcases hcases with rfl | rfl
  · simp only [Nat.sub_zero] at hother
    simp [findNewImage, numOfImage, hcurrent, hother]
  · simp only [Nat.sub_self] at hother
    simp [findNewImage, numOfImage, hother]

theorem programPages_behind {pageSize : ℕ} (fuel off : ℕ) (bytes : List UInt8) {op : FlashOp}
    (hop : op ∈ programPages pageSize off fuel bytes) :
    ∃ off' page, op = .programPage off' page ∧ off ≤ off' := by
  induction fuel generalizing off bytes with
  | zero => simp [programPages] at hop
  | succ fuel ih =>
      rw [programPages] at hop
      split at hop
      case isTrue => simp at hop
      case isFalse =>
        rcases List.mem_cons.mp hop with rfl | hop
        · exact ⟨off, _, rfl, le_refl off⟩
        · obtain ⟨off', page, rfl, hoff⟩ := ih _ _ hop
          exact ⟨off', page, rfl, by omega⟩

structure Board.Agrees (board : Board) (record : List UInt8) (booted : List ℕ) : Prop where
  space : 2 ≤ board.bootconfig.length
  record : board.bootconfig.take 2 = record.take 2
  booted : board.booted = booted

theorem perform_behind (pageSize : ℕ) {ops : List FlashOp} {board : Board} {record : List UInt8}
    {booted : List ℕ} (hops : ∀ op ∈ ops, ∃ off page, op = .programPage off page ∧ 2 ≤ off)
    (h : board.Agrees record booted) :
    ((boardMachine pageSize).perform board ops).Agrees record booted := by
  refine PowerCut.Machine.perform_invariant (Board.Agrees · record booted)
    (fun op hop board' h' => ?_) h
  obtain ⟨off, page, rfl, hoff⟩ := hops op hop
  have hspace := h'.space
  refine ⟨?_, ?_, h'.booted⟩
  · show 2 ≤ (overwrite board'.bootconfig off page).length
    simp only [overwrite, List.length_append, List.length_take]
    omega
  · show (overwrite board'.bootconfig off page).take 2 = _
    rw [overwrite, List.append_assoc, List.take_append_of_le_length (by simp; omega),
      List.take_take, Nat.min_eq_left hoff, h'.record]

theorem take_overwrite_zero {buf bytes : List UInt8} (h : 2 ≤ bytes.length) :
    (overwrite buf 0 bytes).take 2 = bytes.take 2 := by
  rw [overwrite, List.take_zero, List.nil_append, List.take_append_of_le_length h]

theorem bootOps_none (pageSize : ℕ) {bootconfig : List UInt8}
    (h : findNewImage (dumpDualImageInfoFromBootconfig bootconfig) 0 numOfImage = none) :
    bootOps pageSize bootconfig = [.readBootconfig, .readMrd,
      .bootFirmware (dumpDualImageInfoFromBootconfig bootconfig).bootImage] := by
  have hboot := (dump_fits bootconfig).bootImage
  have himage : (if (dumpDualImageInfoFromBootconfig bootconfig).bootImage = 1 then 1 else 0) =
      (dumpDualImageInfoFromBootconfig bootconfig).bootImage := by
    split <;> omega
  simp [bootOps, doAtgo, checkHaveNewImage, h, himage]

def failedRecord (bootconfig : List UInt8) (image : ℕ) : List UInt8 :=
  overwrite bootconfig 0 (packDualImageInfo
    (setImageState (dumpDualImageInfoFromBootconfig bootconfig) image .failImage))

theorem bootOps_some (pageSize : ℕ) {image : ℕ} {bootconfig : List UInt8} (himage : image ≤ 1)
    (h : findNewImage (dumpDualImageInfoFromBootconfig bootconfig) 0 numOfImage = some image) :
    ∃ pages, bootOps pageSize bootconfig =
        .readBootconfig :: .readMrd :: .eraseBootconfig ::
          .programPage 0 ((failedRecord bootconfig image).take pageSize) ::
            (pages ++ [.bootFirmware image]) ∧
      ∀ op ∈ pages, ∃ off page, op = .programPage off page ∧ pageSize ≤ off := by
  have hif : (if image = 1 then 1 else 0) = image := by split <;> omega
  have hlength : 2 ≤ (failedRecord bootconfig image).length := by
    have := length_packDualImageInfo_pos
      (setImageState (dumpDualImageInfoFromBootconfig bootconfig) image .failImage)
    simp only [failedRecord, overwrite, List.length_append]
    omega
  obtain ⟨fuel, hfuel⟩ : ∃ fuel, (failedRecord bootconfig image).length = fuel + 1 :=
    ⟨(failedRecord bootconfig image).length - 1, by omega⟩
  have hne : failedRecord bootconfig image ≠ [] := by
    intro hnil
    simp [hnil] at hlength
  refine ⟨programPages pageSize pageSize fuel ((failedRecord bootconfig image).drop pageSize),
    ?_, fun op hop => programPages_behind _ _ _ hop⟩
  have hpages : programPages pageSize 0 (failedRecord bootconfig image).length
      (failedRecord bootconfig image) =
      .programPage 0 ((failedRecord bootconfig image).take pageSize) ::
        programPages pageSize pageSize fuel ((failedRecord bootconfig image).drop pageSize) := by
    rw [hfuel, programPages, if_neg hne, Nat.zero_add]
  rw [bootOps, doAtgo, checkHaveNewImage, h]
  simp only [writeDualImageInfoToBootconfig]
  rw [show overwrite bootconfig 0 _ = failedRecord bootconfig image from rfl, hpages, hif]
  rfl

theorem findNewImage_le {info : DualImageInfo} {image : ℕ}
    (h : findNewImage info 0 numOfImage = some image) : image ≤ 1 := by
  simp only [findNewImage, numOfImage] at h
  split at h
  · simp only [Option.some.injEq] at h
    omega
  · split at h
    · simp only [Option.some.injEq, Nat.zero_add] at h
      omega
    · simp at h

theorem CutAtErase.eq_three {pageSize : ℕ} {board : Board} {cut : ℕ}
    (h : CutAtErase pageSize board cut) : cut = 3 := by
  unfold CutAtErase at h
  cases hnew : findNewImage (dumpDualImageInfoFromBootconfig board.bootconfig) 0 numOfImage with
  | none =>
      have hmem := List.mem_of_mem_take (List.mem_of_getLast? h)
      rw [bootOps_none pageSize hnew] at hmem
      simp at hmem
  | some image =>
      obtain ⟨pages, hops, hpages⟩ := bootOps_some pageSize (findNewImage_le hnew) hnew
      rw [hops] at h
      match cut with
      | 0 | 1 | 2 => simp at h
      | 3 => rfl
      | cut + 4 =>
          rw [List.take_succ_cons, List.take_succ_cons, List.take_succ_cons, List.take_succ_cons,
            List.getLast?_cons_cons, List.getLast?_cons_cons, List.getLast?_cons_cons] at h
          rcases List.mem_cons.mp (List.mem_of_getLast? h) with hfirst | hrest
          · cases hfirst
          · rcases List.mem_append.mp (List.mem_of_mem_take hrest) with hpage | hboot
            · obtain ⟨off, page, heq, -⟩ := hpages _ hpage
              cases heq
            · simp at hboot

/-! ## Runs -/

structure Untried (g : ℕ) (board : Board) : Prop where
  space : 2 ≤ board.bootconfig.length
  bootImage : (dumpDualImageInfoFromBootconfig board.bootconfig).bootImage = g
  current : (dumpDualImageInfoFromBootconfig board.bootconfig).stateOf g = .successImage
  other : (dumpDualImageInfoFromBootconfig board.bootconfig).stateOf (1 - g) = .newImage
  booted : board.booted = []

def TriedOnce (g : ℕ) (booted : List ℕ) : Prop :=
  ∃ k, booted = List.replicate k g ∨ booted = (1 - g) :: List.replicate k g

structure Settled (g : ℕ) (board : Board) : Prop where
  space : 2 ≤ board.bootconfig.length
  bootImage : (dumpDualImageInfoFromBootconfig board.bootconfig).bootImage = g
  noNew : ∀ image < numOfImage,
    (dumpDualImageInfoFromBootconfig board.bootconfig).stateOf image ≠ .newImage

theorem Untried.le_one {g : ℕ} {board : Board} (h : Untried g board) : g ≤ 1 :=
  h.bootImage ▸ (dump_fits board.bootconfig).bootImage

theorem TriedOnce.append {g : ℕ} {booted : List ℕ} (h : TriedOnce g booted) :
    TriedOnce g (booted ++ [g]) := by
  obtain ⟨k, rfl | rfl⟩ := h
  · exact ⟨k + 1, .inl List.replicate_succ'.symm⟩
  · exact ⟨k + 1, .inr (by rw [List.cons_append, ← List.replicate_succ'])⟩

theorem Settled.start {g pageSize : ℕ} {board : Board} (h : Settled g board) (cut : ℕ) :
    (boardMachine pageSize).start board cut =
      { board with booted := board.booted ++ if 3 ≤ cut then [g] else [] } := by
  have hops := bootOps_none pageSize (findNewImage_none h.noNew)
  rw [h.bootImage] at hops
  rw [boardMachine_start, hops]
  match cut with
  | 0 | 1 | 2 => simp [FlashOp.apply]
  | cut + 3 => simp [FlashOp.apply]

theorem failedRecord_settled {g : ℕ} {board : Board} (h : Untried g board) {board' : Board}
    {booted : List ℕ} (hagrees : board'.Agrees (failedRecord board.bootconfig (1 - g)) booted) :
    Settled g board' := by
  have hg := h.le_one
  have hfits := (dump_fits board.bootconfig).setImageState (show 1 - g < 2 by omega) .failImage
  obtain ⟨hboot, himage⟩ := dump_packDualImageInfo hfits
    (board.bootconfig.drop (0 + (packDualImageInfo (setImageState
      (dumpDualImageInfoFromBootconfig board.bootconfig) (1 - g) .failImage)).length))
  have hlength := length_packDualImageInfo_pos
    (setImageState (dumpDualImageInfoFromBootconfig board.bootconfig) (1 - g) .failImage)
  have hdump : dumpDualImageInfoFromBootconfig board'.bootconfig =
      dumpDualImageInfoFromBootconfig (failedRecord board.bootconfig (1 - g)) := by
    refine dumpDualImageInfoFromBootconfig_congr ?_ hagrees.record
    simp only [failedRecord, overwrite, List.length_append]
    omega
  rw [failedRecord, overwrite, List.take_zero, List.nil_append] at hdump
  rw [← hdump] at hboot himage
  refine ⟨hagrees.space, ?_, fun image himage' => ?_⟩
  · rw [hboot]
    exact h.bootImage
  · rw [DualImageInfo.stateOf, himage]
    obtain ⟨low, high, hlist, -, -⟩ := (dump_fits board.bootconfig).image
    have hcurrent := h.current
    have hcases : g = 0 ∨ g = 1 := by omega
    have hcases' : image = 0 ∨ image = 1 := by simp only [numOfImage] at himage'; omega
    rcases hcases with rfl | rfl <;> rcases hcases' with rfl | rfl <;>
      simp [setImageState, DualImageInfo.stateOf, hlist] at hcurrent ⊢ <;> simp [hcurrent]

theorem Untried.start_erased {g : ℕ} {board : Board} (h : Untried g board) (pageSize : ℕ) :
    CutAtErase pageSize board 3 ∧ (boardMachine pageSize).start board 3 =
      { board with bootconfig := List.replicate bootconfigSize 0xff } := by
  obtain ⟨pages, hops, -⟩ := bootOps_some pageSize (Nat.sub_le 1 g)
    (findNewImage_other h.le_one h.current h.other)
  refine ⟨by simp [CutAtErase, hops], ?_⟩
  rw [boardMachine_start, hops]
  simp [FlashOp.apply]

theorem Untried.start_cases {g pageSize : ℕ} {board : Board} (h : Untried g board)
    (hpage : 2 ≤ pageSize) (cut : ℕ) :
    (boardMachine pageSize).start board cut = board ∨
      (CutAtErase pageSize board cut ∧ (boardMachine pageSize).start board cut =
        { board with bootconfig := List.replicate bootconfigSize 0xff }) ∨
      Settled g ((boardMachine pageSize).start board cut) ∧
        (((boardMachine pageSize).start board cut).booted = [] ∨
          ((boardMachine pageSize).start board cut).booted = [1 - g]) := by
  obtain ⟨pages, hops, hpages⟩ := bootOps_some pageSize (Nat.sub_le 1 g)
    (findNewImage_other h.le_one h.current h.other)
  match cut with
  | 0 | 1 | 2 =>
      left
      rw [boardMachine_start, hops]
      simp [FlashOp.apply]
  | 3 =>
      right
      left
      exact h.start_erased pageSize
  | cut + 4 =>
      right
      right
      -- The record is complete with the first page.
      have hlength := length_packDualImageInfo_pos
        (setImageState (dumpDualImageInfoFromBootconfig board.bootconfig) (1 - g) .failImage)
      have hrecord : 2 ≤ ((failedRecord board.bootconfig (1 - g)).take pageSize).length := by
        simp only [failedRecord, overwrite, List.length_append, List.length_take]
        omega
      have hfirst : Board.Agrees
          { board with
            bootconfig := overwrite (List.replicate bootconfigSize 0xff) 0
              ((failedRecord board.bootconfig (1 - g)).take pageSize) }
          (failedRecord board.bootconfig (1 - g)) [] := by
        refine ⟨?_, ?_, h.booted⟩
        · show 2 ≤ (overwrite _ 0 _).length
          rw [overwrite, List.length_append, List.length_append]
          omega
        · show (overwrite _ 0 _).take 2 = _
          rw [take_overwrite_zero hrecord, List.take_take, Nat.min_eq_left hpage]
      have hbehind : ∀ op ∈ pages.take cut, ∃ off page, op = .programPage off page ∧ 2 ≤ off := by
        intro op hop
        obtain ⟨off, page, rfl, hoff⟩ := hpages op (List.mem_of_mem_take hop)
        exact ⟨off, page, rfl, by omega⟩
      have hmiddle := perform_behind pageSize hbehind hfirst
      have hsplit : (boardMachine pageSize).start board (cut + 4) =
          (boardMachine pageSize).perform ((boardMachine pageSize).perform
            { board with
              bootconfig := overwrite (List.replicate bootconfigSize 0xff) 0
                ((failedRecord board.bootconfig (1 - g)).take pageSize) }
            (pages.take cut)) ([FlashOp.bootFirmware (1 - g)].take (cut - pages.length)) := by
        rw [boardMachine_start, hops, List.take_succ_cons, List.take_succ_cons,
          List.take_succ_cons, List.take_succ_cons, List.take_append, ← PowerCut.Machine.perform_append]
        rfl
      rw [hsplit]
      generalize (boardMachine pageSize).perform _ (pages.take cut) = written at hmiddle ⊢
      rcases Nat.eq_zero_or_pos (cut - pages.length) with hzero | hpos
      · rw [hzero]
        exact ⟨failedRecord_settled h hmiddle, .inl hmiddle.booted⟩
      · rw [List.take_of_length_le (show [FlashOp.bootFirmware (1 - g)].length ≤ _ from hpos)]
        have hbooted : ((boardMachine pageSize).perform written
            [.bootFirmware (1 - g)]).Agrees (failedRecord board.bootconfig (1 - g)) [1 - g] :=
          ⟨hmiddle.space, hmiddle.record, by
            show written.booted ++ [1 - g] = [1 - g]
            rw [hmiddle.booted]
            rfl⟩
        exact ⟨failedRecord_settled h hbooted, .inr hbooted.booted⟩

theorem settled_erased (booted : List ℕ) :
    Settled 1 { bootconfig := List.replicate bootconfigSize 0xff, booted := booted } where
  space := by
    rw [List.length_replicate]
    decide
  bootImage := by rw [dump_erased]
  noNew image himage := by
    have hcases : image = 0 ∨ image = 1 := by simp only [numOfImage] at himage; omega
    rw [dump_erased]
    rcases hcases with rfl | rfl <;> decide

def Phase (g : ℕ) (board : Board) : Prop :=
  Untried g board ∨ Settled g board ∧ TriedOnce g board.booted

theorem Phase.start {g pageSize : ℕ} {board : Board} (h : Phase g board) (hpage : 2 ≤ pageSize)
    {cut : ℕ} (hcut : g = 1 ∨ ¬CutAtErase pageSize board cut) :
    Phase g ((boardMachine pageSize).start board cut) := by
  rcases h with huntried | ⟨hsettled, htried⟩
  · rcases huntried.start_cases hpage cut with hsame | ⟨herase, hsame⟩ | ⟨hsettled, hbooted⟩
    · rw [hsame]
      exact .inl huntried
    · obtain rfl : g = 1 := hcut.resolve_right fun hno => hno herase
      rw [hsame, huntried.booted]
      exact .inr ⟨settled_erased _, 0, .inl rfl⟩
    · refine .inr ⟨hsettled, 0, ?_⟩
      rcases hbooted with hbooted | hbooted
      · exact .inl hbooted
      · exact .inr hbooted
  · rw [hsettled.start cut]
    refine .inr ⟨⟨hsettled.space, hsettled.bootImage, hsettled.noNew⟩, ?_⟩
    show TriedOnce g (board.booted ++ if 3 ≤ cut then [g] else [])
    split
    · exact htried.append
    · rwa [List.append_nil]

def recordedBoard (states boot : UInt8) : Board where
  bootconfig := states :: boot :: List.replicate (bootconfigSize - 2) 0xff
  booted := []

theorem recordedBoard_space (states boot : UInt8) :
    2 ≤ (recordedBoard states boot).bootconfig.length := by
  rw [recordedBoard, List.length_cons, List.length_cons]
  generalize (List.replicate _ _).length = room
  omega

theorem dump_recordedBoard (states boot : UInt8) :
    dumpDualImageInfoFromBootconfig (recordedBoard states boot).bootconfig =
      { bootImage := field bootImageImageMask boot.toNat
        upgradeImage := ((field bootImageImageMask boot.toNat + 1) % numOfImage) &&&
          bootImageImageMask
        image := [unpackImage states.toNat, unpackImage (states.toNat >>> 4)] } :=
  dumpDualImageInfoFromBootconfig_cons states boot _

theorem untried_recordedBoard : Untried 0 (recordedBoard 0x48 0) where
  space := recordedBoard_space _ _
  bootImage := by
    rw [dump_recordedBoard]
    decide
  current := by
    rw [dump_recordedBoard]
    decide
  other := by
    rw [dump_recordedBoard]
    decide
  booted := rfl

/-- In every run of starts, each of which may lose power after any of its flash
operations, a new image is booted at most once, and every later start boots the
image that works, provided power is never lost between the erase and the first
program of the area, or the image that works is image 1. -/
theorem new_image_tried_once (pageSize g : ℕ) (board : Board) (cuts : List ℕ)
    (hpage : 2 ≤ pageSize) (hboard : Untried g board)
    (hcuts : (boardMachine pageSize).Along
      (fun board cut => g = 1 ∨ ¬CutAtErase pageSize board cut) board cuts) :
    TriedOnce g ((boardMachine pageSize).run board cuts).booted := by
  have hfinal : Phase g ((boardMachine pageSize).run board cuts) :=
    PowerCut.Machine.run_invariant (fun board' cut h hcut => h.start hpage hcut) (.inl hboard) hcuts
  rcases hfinal with huntried | ⟨-, htried⟩
  · exact ⟨0, .inl huntried.booted⟩
  · exact htried

/-- Power is lost before the erase, after the first page, and never again. -/
theorem new_image_tried_once_small :
    TriedOnce 0 ((boardMachine 2048).run (recordedBoard 0x48 0) [2, 4, 100, 100]).booted := by
  refine new_image_tried_once 2048 0 _ _ (by decide) untried_recordedBoard ?_
  refine ⟨.inr fun h => ?_, .inr fun h => ?_, .inr fun h => ?_, .inr fun h => ?_, trivial⟩
  all_goals exact absurd h.eq_three (by decide)

/-- Power is lost once, right after the erase.  Image 0 works, but every later
start boots image 1, because an erased area names image 1. -/
theorem erased_record_boots_new_image :
    Untried 0 (recordedBoard 0x48 0) ∧
      ((boardMachine 2048).run (recordedBoard 0x48 0) [3, 100, 100]).booted = [1, 1] ∧
        ¬TriedOnce 0 [1, 1] := by
  refine ⟨untried_recordedBoard, ?_, ?_⟩
  · rw [PowerCut.Machine.run_cons, (untried_recordedBoard.start_erased 2048).2,
      PowerCut.Machine.run_cons, (settled_erased _).start, PowerCut.Machine.run_cons,
      (settled_erased _).start, PowerCut.Machine.run_nil]
    rfl
  · rintro ⟨k, h | h⟩
    · match k, h with
      | k + 1, h => simp [List.replicate_succ] at h
    · match k, h with
      | 0, h => simp at h
      | k + 1, h => simp [List.replicate_succ] at h

end Nwa50ax.Boot
