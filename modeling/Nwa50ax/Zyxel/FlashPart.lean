import Mathlib.Data.BitVec
import Nwa50ax.Lib.StateSpec
import Nwa50ax.Lib.Store

/-!
# Reading and writing partitions

`flash_part_rw_common` of `zyxel_util.c`.  A range of a partition is written by
reading the partition from its start to the end of the range, erasing it and
writing it again.  Every operation of the flash can fail; an erase or a write
that fails leaves anything in its range.
-/

namespace Nwa50ax.Zyxel

open ByteBuffer ByteStore StateProgram

abbrev U32 := BitVec 32

/-! ## The flash -/

structure Partition where
  off : ℕ
  size : ℕ
deriving DecidableEq

structure Board where
  hasFlash : Bool
  eraseSize : U32
  partition : String → Option Partition
  malloc : ℕ → U32 → Bool
  fails : ℕ → Bool
  debris : ℕ → ℕ → UInt8 → UInt8

inductive Access
  | read (off len : ℕ)
  | erase (off len : ℕ)
  | write (off len : ℕ)
  /-- `memcpy` between `len` bytes of the caller and the position `off` of a
  buffer of `room` bytes. -/
  | copy (off len room : ℕ)
deriving DecidableEq

structure Flash where
  size : ℕ
  bytes : ℕ → UInt8
  ops : ℕ
  accesses : List Access

abbrev FlashM := StateM Flash

def Flash.access (flash : Flash) (access : Access) : Flash :=
  { flash with accesses := flash.accesses ++ [access], ops := flash.ops + 1 }

def mtkBoardFlashRead (board : Board) (off len : ℕ) : FlashM (Option (List UInt8)) := fun flash =>
  if flash.size < off + len then
    (none, flash)
  else
    (if board.fails flash.ops then none else some (region flash.bytes off len),
      flash.access (.read off len))

def change (board : Board) (access : Access) (off : ℕ) (bytes : List UInt8) : FlashM Bool :=
  fun flash =>
    if flash.size < off + bytes.length then
      (false, flash)
    else if board.fails flash.ops then
      (false, { flash.access access with
        bytes := blit flash.bytes off
          ((region flash.bytes off bytes.length).mapIdx (board.debris flash.ops)) })
    else
      (true, { flash.access access with bytes := blit flash.bytes off bytes })

def mtkBoardFlashErase (board : Board) (off len : ℕ) : FlashM Bool :=
  change board (.erase off len) off (List.replicate len 0xff)

def mtkBoardFlashWrite (board : Board) (off : ℕ) (bytes : List UInt8) : FlashM Bool :=
  change board (.write off bytes.length) off bytes

/-! ## Partitions -/

inductive Mode
  | read
  | write
deriving DecidableEq

def eio : ℤ := -5
def enomem : ℤ := -12

/-- `(offset + size + block_size - 1) / block_size * block_size`. -/
def blockLength (blockSize offset size : U32) : U32 :=
  (offset + size + blockSize - 1) / blockSize * blockSize

def recordCopy (offset size length : U32) : FlashM Unit :=
  modify fun flash => { flash with
    accesses := flash.accesses ++ [.copy offset.toNat size.toNat length.toNat] }

/-- The `FLASH_WRITE` case, for a partition that has been read into `blockBuf`. -/
def rewriteBlocks (board : Board) (part : Partition) (blockBuf : List UInt8) : FlashM ℤ := do
  if ← mtkBoardFlashErase board part.off blockBuf.length then
    if ← mtkBoardFlashWrite board part.off blockBuf then
      return 0
    else
      return eio
  else
    return eio

/-- `flash_part_rw_common` from the allocation on, with the caller's buffer. -/
def accessBlocks (board : Board) (part : Partition) (buf : List UInt8) (offset size length : U32)
    (mode : Mode) : FlashM (ℤ × List UInt8) := do
  match ← mtkBoardFlashRead board part.off length.toNat with
  | none => return (eio, buf)
  | some blockBuf =>
      recordCopy offset size length
      match mode with
      | .read => return (0, overwrite buf 0 (slice blockBuf offset.toNat size.toNat))
      | .write =>
          let ret ← rewriteBlocks board part
            ((overwrite blockBuf offset.toNat (buf.take size.toNat)).take length.toNat)
          return (ret, buf)

def flashPartRwCommon (board : Board) (partName : String) (buf : List UInt8) (offset size : U32)
    (mode : Mode) : FlashM (ℤ × List UInt8) := do
  if board.hasFlash = false ∨ board.eraseSize = 0 then
    return (-1, buf)
  else
    match board.partition partName with
    | none => return (-1, buf)
    | some part =>
        if part.size < offset.toNat ∨ part.size < size.toNat then
          return (-1, buf)
        else
          let length := blockLength board.eraseSize offset size
          let flash ← get
          if board.malloc flash.ops length then
            accessBlocks board part buf offset size length mode
          else
            return (enomem, buf)

def flashPartRead (board : Board) (partName : String) (buf : List UInt8) (offset size : U32) :
    FlashM (ℤ × List UInt8) :=
  flashPartRwCommon board partName buf offset size .read

def flashPartWrite (board : Board) (partName : String) (buf : List UInt8) (offset size : U32) :
    FlashM (ℤ × List UInt8) :=
  flashPartRwCommon board partName buf offset size .write

/-! ## The blocks of a range -/

/-- A range of a partition that consists of blocks; all sums of the source have
32 bits. -/
structure Partition.Has (part : Partition) (blockSize offset size : U32) : Prop where
  blocks : blockSize.toNat ∣ part.size
  inside : offset.toNat + size.toNat ≤ part.size
  bound : part.size + blockSize.toNat ≤ 2 ^ 32

section Length

variable {part : Partition} {blockSize offset size : U32}

theorem toNat_pos_of_ne_zero {n : U32} (h : n ≠ 0) : 0 < n.toNat :=
  Nat.pos_of_ne_zero fun hzero => h (BitVec.eq_of_toNat_eq hzero)

theorem blockLength_toNat (h : part.Has blockSize offset size) (hpos : 0 < blockSize.toNat) :
    (blockLength blockSize offset size).toNat =
      (offset.toNat + size.toNat + blockSize.toNat - 1) / blockSize.toNat * blockSize.toNat := by
  have hinside := h.inside
  have hbound := h.bound
  have hone : (1 : U32).toNat = 1 := rfl
  have hsum : (offset + size + blockSize - 1).toNat =
      offset.toNat + size.toNat + blockSize.toNat - 1 := by
    simp only [BitVec.toNat_sub, BitVec.toNat_add]
    omega
  unfold blockLength
  rw [BitVec.toNat_mul, BitVec.toNat_udiv, hsum]
  refine Nat.mod_eq_of_lt (lt_of_le_of_lt (Nat.div_mul_le_self _ _) ?_)
  omega

theorem blockLength_bounds (h : part.Has blockSize offset size) (hpos : 0 < blockSize.toNat) :
    offset.toNat + size.toNat ≤ (blockLength blockSize offset size).toNat ∧
      (blockLength blockSize offset size).toNat ≤ part.size := by
  rw [blockLength_toNat h hpos]
  have hinside := h.inside
  obtain ⟨count, hcount⟩ := h.blocks
  generalize offset.toNat + size.toNat = extent at hinside ⊢
  constructor
  · have hdiv := Nat.div_add_mod (extent + blockSize.toNat - 1) blockSize.toNat
    have hmod := Nat.mod_lt (extent + blockSize.toNat - 1) hpos
    rw [Nat.mul_comm] at hdiv
    omega
  · rw [hcount, Nat.mul_comm blockSize.toNat]
    refine Nat.mul_le_mul_right _ (Nat.lt_succ_iff.mp ((Nat.div_lt_iff_lt_mul hpos).mpr ?_))
    rw [Nat.succ_mul, Nat.mul_comm, ← hcount]
    omega

end Length

/-! ## What a call touches -/

def Access.Inside (part : Partition) : Access → Prop
  | .read off len | .erase off len | .write off len =>
      part.off ≤ off ∧ off + len ≤ part.off + part.size
  | .copy off len room => off + len ≤ room

structure Confined (part : Partition) (flash flash' : Flash) : Prop where
  size : flash'.size = flash.size
  accesses : ∃ new, flash'.accesses = flash.accesses ++ new ∧ ∀ a ∈ new, a.Inside part
  elsewhere : ∀ i, i < part.off ∨ part.off + part.size ≤ i → flash'.bytes i = flash.bytes i

instance (part : Partition) : Std.Refl (Confined part) where
  refl _ := ⟨rfl, ⟨[], by simp⟩, fun _ _ => rfl⟩

instance (part : Partition) : IsTrans Flash (Confined part) where
  trans _ _ _ hab hbc := by
    obtain ⟨new, hnew, hin⟩ := hab.accesses
    obtain ⟨new', hnew', hin'⟩ := hbc.accesses
    refine ⟨hbc.size.trans hab.size, ⟨new ++ new', ?_, ?_⟩, ?_⟩
    · rw [hnew', hnew, List.append_assoc]
    · intro a ha
      rcases List.mem_append.mp ha with ha | ha
      · exact hin a ha
      · exact hin' a ha
    · intro i hi
      rw [hbc.elsewhere i hi, hab.elsewhere i hi]

section Confined

variable {part : Partition} (board : Board)

theorem mtkBoardFlashRead_confined {off len : ℕ} (hin : (Access.read off len).Inside part) :
    Keeps (Confined part) (mtkBoardFlashRead board off len) := by
  intro flash
  unfold mtkBoardFlashRead
  split
  · exact Std.Refl.refl flash
  · exact ⟨rfl, ⟨[.read off len], rfl, by simpa using hin⟩, fun _ _ => rfl⟩

theorem change_confined {access : Access} {off : ℕ} {bytes : List UInt8}
    (hin : access.Inside part) (hoff : part.off ≤ off)
    (hstop : off + bytes.length ≤ part.off + part.size) :
    Keeps (Confined part) (change board access off bytes) := by
  have hblit : ∀ (store : ℕ → UInt8) (new : List UInt8), new.length = bytes.length →
      ∀ i, i < part.off ∨ part.off + part.size ≤ i → blit store off new i = store i :=
    fun store new hlen i hi => blit_outside (by omega)
  intro flash
  unfold change
  split
  · exact Std.Refl.refl flash
  · split
    · exact ⟨rfl, ⟨[access], rfl, by simpa using hin⟩, hblit flash.bytes _ (by simp)⟩
    · exact ⟨rfl, ⟨[access], rfl, by simpa using hin⟩, hblit flash.bytes _ rfl⟩

theorem rewriteBlocks_confined {blockBuf : List UInt8} (hlen : blockBuf.length ≤ part.size) :
    Keeps (Confined part) (rewriteBlocks board part blockBuf) := by
  have hin : part.off ≤ part.off ∧ part.off + blockBuf.length ≤ part.off + part.size :=
    ⟨le_rfl, by omega⟩
  refine .bind (change_confined board hin le_rfl (by simpa using hlen)) fun erased => ?_
  refine .ite (fun _ => ?_) fun _ => .pure _
  refine .bind (change_confined board hin le_rfl (by omega)) fun written => ?_
  exact .ite (fun _ => .pure _) fun _ => .pure _

theorem recordCopy_confined {offset size length : U32}
    (h : offset.toNat + size.toNat ≤ length.toNat) :
    Keeps (Confined part) (recordCopy offset size length) := by
  intro flash
  exact ⟨rfl, ⟨[.copy offset.toNat size.toNat length.toNat], rfl, by simpa [Access.Inside] using h⟩,
    fun _ _ => rfl⟩

theorem accessBlocks_confined (buf : List UInt8) {offset size length : U32} (mode : Mode)
    (hcover : offset.toNat + size.toNat ≤ length.toNat) (hlength : length.toNat ≤ part.size) :
    Keeps (Confined part) (accessBlocks board part buf offset size length mode) := by
  refine .bind (mtkBoardFlashRead_confined board ⟨le_rfl, by omega⟩) fun read => ?_
  cases read with
  | none => exact .pure _
  | some blockBuf =>
      refine .bind (recordCopy_confined hcover) fun _ => ?_
      cases mode with
      | read => exact .pure _
      | write =>
          refine .bind (rewriteBlocks_confined board ?_) fun _ => .pure _
          rw [List.length_take]
          omega

theorem flashPart_confined (partName : String) (buf : List UInt8) (offset size : U32) (mode : Mode)
    (hpart : board.partition partName = some part)
    (hrange : part.Has board.eraseSize offset size) :
    Keeps (Confined part) (flashPartRwCommon board partName buf offset size mode) := by
  refine .ite (fun _ => .pure _) fun hboard => ?_
  rw [hpart]
  refine .ite (fun _ => .pure _) fun _ => ?_
  have hpos := toNat_pos_of_ne_zero (not_or.mp hboard).2
  obtain ⟨hcover, hlength⟩ := blockLength_bounds hrange hpos
  refine .bind (fun flash => Std.Refl.refl flash) fun flash => .ite (fun _ => ?_) fun _ => .pure _
  exact accessBlocks_confined board buf mode hcover hlength

end Confined

section Success

variable {board : Board} {part : Partition} {flash : Flash} {offset size length : U32}
  {buf : List UInt8}

structure Flash.Same (flash flash' : Flash) : Prop where
  size : flash'.size = flash.size
  bytes : flash'.bytes = flash.bytes

theorem mtkBoardFlashRead_same (board : Board) (off len : ℕ) (flash : Flash) :
    flash.Same (mtkBoardFlashRead board off len flash).2 := by
  unfold mtkBoardFlashRead
  split <;> exact ⟨rfl, rfl⟩

theorem mtkBoardFlashRead_some {off len : ℕ} {blockBuf : List UInt8}
    (h : (mtkBoardFlashRead board off len flash).1 = some blockBuf) :
    blockBuf = region flash.bytes off len := by
  unfold mtkBoardFlashRead at h
  split at h
  · cases h
  · dsimp only at h
    split at h
    · cases h
    · exact (Option.some.inj h).symm

theorem change_success {access : Access} {off : ℕ} {bytes : List UInt8}
    (h : (change board access off bytes flash).1 = true) :
    (change board access off bytes flash).2.bytes = blit flash.bytes off bytes := by
  unfold change at h ⊢
  split at h
  · cases h
  · split at h
    · cases h
    · rw [if_neg (by assumption), if_neg (by assumption)]

theorem eio_neg : ¬0 ≤ eio := by
  decide

theorem rewriteBlocks_success {blockBuf : List UInt8}
    (h : 0 ≤ (rewriteBlocks board part blockBuf flash).1) :
    (rewriteBlocks board part blockBuf flash).2.bytes = blit flash.bytes part.off blockBuf := by
  unfold rewriteBlocks at h ⊢
  rw [bind_run, ite_run] at h ⊢
  split at h
  case isTrue herased =>
      rw [if_pos herased]
      rw [bind_run, ite_run] at h ⊢
      split at h
      case isTrue hwritten =>
          rw [if_pos hwritten]
          have hwrite := change_success hwritten
          have herase := change_success herased
          exact hwrite.trans ((congrArg (blit · part.off blockBuf) herase).trans
            (blit_blit (by simp)))
      case isFalse => exact absurd h eio_neg
  case isFalse => exact absurd h eio_neg

theorem accessBlocks_read_same (board : Board) (part : Partition) (buf : List UInt8)
    (offset size length : U32) (flash : Flash) :
    flash.Same (accessBlocks board part buf offset size length .read flash).2 := by
  obtain ⟨hsize, hbytes⟩ := mtkBoardFlashRead_same board part.off length.toNat flash
  unfold accessBlocks
  rw [bind_run]
  cases (mtkBoardFlashRead board part.off length.toNat flash).1 with
  | none => exact ⟨hsize, hbytes⟩
  | some blockBuf => exact ⟨hsize, hbytes⟩

theorem accessBlocks_read_success
    (h : 0 ≤ (accessBlocks board part buf offset size length .read flash).1.1) :
    (accessBlocks board part buf offset size length .read flash).1.2 =
      overwrite buf 0
        (slice (region flash.bytes part.off length.toNat) offset.toNat size.toNat) := by
  unfold accessBlocks at h ⊢
  rw [bind_run] at h ⊢
  cases hread : (mtkBoardFlashRead board part.off length.toNat flash).1 with
  | none =>
      rw [hread] at h
      exact absurd h eio_neg
  | some blockBuf =>
      rw [← mtkBoardFlashRead_some hread]
      rfl

theorem accessBlocks_write_success
    (h : 0 ≤ (accessBlocks board part buf offset size length .write flash).1.1) :
    (accessBlocks board part buf offset size length .write flash).2.bytes =
      blit flash.bytes part.off
        ((overwrite (region flash.bytes part.off length.toNat) offset.toNat
          (buf.take size.toNat)).take length.toNat) := by
  unfold accessBlocks at h ⊢
  rw [bind_run] at h ⊢
  have hbytes := (mtkBoardFlashRead_same board part.off length.toNat flash).bytes
  cases hread : (mtkBoardFlashRead board part.off length.toNat flash).1 with
  | none =>
      rw [hread] at h
      exact absurd h eio_neg
  | some blockBuf =>
      rw [hread] at h
      have hrewrite := rewriteBlocks_success h
      rw [← mtkBoardFlashRead_some hread]
      exact hrewrite.trans (congrArg (blit · part.off _) hbytes)

structure Admits (board : Board) (part : Partition) (offset size : U32) : Prop where
  flash : board.hasFlash = true
  eraseSize : board.eraseSize ≠ 0
  offset : offset.toNat ≤ part.size
  size : size.toNat ≤ part.size

theorem Admits.call (h : Admits board part offset size) {partName : String}
    (hpart : board.partition partName = some part) (buf : List UInt8) (mode : Mode)
    (flash : Flash) :
    flashPartRwCommon board partName buf offset size mode flash =
      if board.malloc flash.ops (blockLength board.eraseSize offset size) then
        accessBlocks board part buf offset size (blockLength board.eraseSize offset size) mode flash
      else ((enomem, buf), flash) := by
  obtain ⟨hflash, herase, hoffset, hsize⟩ := h
  unfold flashPartRwCommon
  rw [ite_run, if_neg (not_or.mpr ⟨by simp [hflash], herase⟩), hpart]
  dsimp only
  rw [ite_run, if_neg (by omega), bind_run, ite_run]
  rfl

theorem flashPartRwCommon_admitted {partName : String} {mode : Mode}
    (hpart : board.partition partName = some part)
    (h : 0 ≤ (flashPartRwCommon board partName buf offset size mode flash).1.1) :
    Admits board part offset size := by
  unfold flashPartRwCommon at h
  rw [hpart, ite_run] at h
  split at h
  case isTrue => exact absurd h (show ¬(0 : ℤ) ≤ -1 by decide)
  case isFalse hboard =>
      dsimp only at h
      rw [ite_run] at h
      split at h
      case isTrue => exact absurd h (show ¬(0 : ℤ) ≤ -1 by decide)
      case isFalse hinside =>
          obtain ⟨hflash, herase⟩ := not_or.mp hboard
          exact ⟨by simpa using hflash, herase, by omega, by omega⟩

theorem flashPartRwCommon_success {partName : String} {mode : Mode}
    (hpart : board.partition partName = some part)
    (h : 0 ≤ (flashPartRwCommon board partName buf offset size mode flash).1.1) :
    flashPartRwCommon board partName buf offset size mode flash =
      accessBlocks board part buf offset size (blockLength board.eraseSize offset size) mode
        flash := by
  have hadmits := flashPartRwCommon_admitted hpart h
  rw [hadmits.call hpart] at h ⊢
  split at h
  case isTrue hmalloc => rw [if_pos hmalloc]
  case isFalse => exact absurd h (show ¬0 ≤ enomem by decide)

theorem accessBlocks_inside {mode : Mode}
    (h : 0 ≤ (accessBlocks board part buf offset size length mode flash).1.1) :
    part.off + length.toNat ≤ flash.size := by
  by_contra hout
  unfold accessBlocks mtkBoardFlashRead at h
  rw [bind_run, if_pos (by omega)] at h
  exact eio_neg h

theorem accessBlocks_read_iff (hin : part.off + length.toNat ≤ flash.size) :
    0 ≤ (accessBlocks board part buf offset size length .read flash).1.1 ↔
      board.fails flash.ops = false := by
  unfold accessBlocks mtkBoardFlashRead
  rw [bind_run, if_neg (by omega)]
  cases board.fails flash.ops with
  | false => exact ⟨fun _ => rfl, fun _ => le_refl 0⟩
  | true => exact ⟨fun h => absurd h eio_neg, fun h => absurd h (by decide)⟩

theorem flashPartRead_same (board : Board) (partName : String) (buf : List UInt8)
    (offset size : U32) (flash : Flash) :
    flash.Same (flashPartRead board partName buf offset size flash).2 := by
  unfold flashPartRead flashPartRwCommon
  rw [ite_run]
  split
  · exact ⟨rfl, rfl⟩
  · cases board.partition partName with
    | none => exact ⟨rfl, rfl⟩
    | some part =>
        dsimp only
        rw [ite_run]
        split
        · exact ⟨rfl, rfl⟩
        · rw [bind_run, ite_run]
          split
          · exact accessBlocks_read_same ..
          · exact ⟨rfl, rfl⟩

end Success

/-! ## Flash operations that do not fail -/

structure Board.Works (board : Board) : Prop where
  flash : board.hasFlash = true
  eraseSize : board.eraseSize ≠ 0
  malloc : ∀ ops length, board.malloc ops length = true
  fails : ∀ ops, board.fails ops = false

section Works

variable {board : Board} {part : Partition} {flash : Flash} {off : ℕ}

theorem Board.Works.read (h : board.Works) {len : ℕ} (hin : off + len ≤ flash.size) :
    mtkBoardFlashRead board off len flash =
      (some (region flash.bytes off len), flash.access (.read off len)) := by
  unfold mtkBoardFlashRead
  rw [if_neg (by omega), h.fails]
  rfl

theorem Board.Works.change (h : board.Works) (access : Access) {bytes : List UInt8}
    (hin : off + bytes.length ≤ flash.size) :
    change board access off bytes flash =
      (true, { flash.access access with bytes := blit flash.bytes off bytes }) := by
  unfold Zyxel.change
  rw [if_neg (by omega), h.fails]
  rfl

theorem Board.Works.rewriteBlocks (h : board.Works) {blockBuf : List UInt8}
    (hin : part.off + blockBuf.length ≤ flash.size) :
    ∃ flash', rewriteBlocks board part blockBuf flash = (0, flash') ∧ flash'.size = flash.size ∧
      flash'.bytes = blit flash.bytes part.off blockBuf := by
  unfold Zyxel.rewriteBlocks mtkBoardFlashErase mtkBoardFlashWrite
  rw [bind_run, h.change _ (by simpa using hin)]
  dsimp only
  rw [ite_run, if_pos rfl, bind_run, h.change _ (by simpa [Flash.access] using hin)]
  exact ⟨_, rfl, rfl, blit_blit (by simp)⟩

theorem Board.Works.readBlocks (h : board.Works) {offset size length : U32} {buf : List UInt8}
    (hbuf : buf.length = size.toNat) (hcover : offset.toNat + size.toNat ≤ length.toNat)
    (hin : part.off + length.toNat ≤ flash.size) :
    ∃ flash', accessBlocks board part buf offset size length .read flash =
        ((0, region flash.bytes (part.off + offset.toNat) size.toNat), flash') ∧
      flash'.size = flash.size ∧ flash'.bytes = flash.bytes := by
  unfold accessBlocks
  rw [bind_run, h.read hin]
  dsimp only
  rw [slice_region _ _ hcover, overwrite_all (by rw [hbuf, length_region])]
  exact ⟨_, rfl, rfl, rfl⟩

variable {partName : String} (hpart : board.partition partName = some part)
  (hin : part.off + part.size ≤ flash.size) {offset size : U32}
  (hrange : part.Has board.eraseSize offset size) {buf : List UInt8}
  (hbuf : buf.length = size.toNat)

include hpart hin hrange hbuf

theorem flashPartWrite_works (h : board.Works) :
    ∃ flash', flashPartWrite board partName buf offset size flash = ((0, buf), flash') ∧
      flash'.size = flash.size ∧
      flash'.bytes = blit flash.bytes (part.off + offset.toNat) buf := by
  have hinside := hrange.inside
  obtain ⟨hcover, hlength⟩ := blockLength_bounds hrange (toNat_pos_of_ne_zero h.eraseSize)
  unfold flashPartWrite
  rw [Admits.call ⟨h.flash, h.eraseSize, by omega, by omega⟩ hpart, if_pos (h.malloc _ _)]
  generalize blockLength board.eraseSize offset size = length at hcover hlength
  unfold accessBlocks
  rw [bind_run, h.read (by omega)]
  dsimp only
  have hlen : (overwrite (region flash.bytes part.off length.toNat) offset.toNat buf).length =
      length.toNat := by
    rw [length_overwrite (by rw [length_region, hbuf]; exact hcover), length_region]
  rw [List.take_of_length_le hbuf.le, List.take_of_length_le hlen.le, bind_run, bind_run]
  have hroom : part.off + (overwrite (region flash.bytes part.off length.toNat) offset.toNat
      buf).length ≤ flash.size := by
    rw [hlen]
    omega
  obtain ⟨flash', hrun, hsize, hbytes⟩ := h.rewriteBlocks (show _ ≤ (recordCopy offset size length
    (flash.access (.read part.off length.toNat))).2.size from hroom)
  rw [hrun]
  exact ⟨flash', rfl, hsize, hbytes.trans (blit_overwrite flash.bytes part.off (hbuf ▸ hcover))⟩

theorem flashPartRead_works (h : board.Works) :
    ∃ flash', flashPartRead board partName buf offset size flash =
        ((0, region flash.bytes (part.off + offset.toNat) size.toNat), flash') ∧
      flash'.size = flash.size ∧ flash'.bytes = flash.bytes := by
  have hinside := hrange.inside
  obtain ⟨hcover, hlength⟩ := blockLength_bounds hrange (toNat_pos_of_ne_zero h.eraseSize)
  unfold flashPartRead
  rw [Admits.call ⟨h.flash, h.eraseSize, by omega, by omega⟩ hpart, if_pos (h.malloc _ _)]
  exact h.readBlocks hbuf hcover (by omega)

end Works

/-! ## Sequences of writes -/

structure PartWrite where
  offset : U32
  size : U32
  data : List UInt8

def flashPartWrites (board : Board) (partName : String) : List PartWrite → FlashM (List ℤ)
  | [] => return []
  | w :: writes => do
      let result ← flashPartWrite board partName w.data w.offset w.size
      let results ← flashPartWrites board partName writes
      return result.1 :: results

structure PartWrite.Fits (w : PartWrite) (part : Partition) (blockSize : U32) : Prop where
  length : w.data.length = w.size.toNat
  range : part.Has blockSize w.offset w.size

def PartWrite.apply (part : Partition) (store : ℕ → UInt8) (w : PartWrite) : ℕ → UInt8 :=
  blit store (part.off + w.offset.toNat) w.data

theorem flashPartWrites_works {board : Board} (h : board.Works) {partName : String}
    {part : Partition} (hpart : board.partition partName = some part) {writes : List PartWrite}
    (hwrites : ∀ w ∈ writes, w.Fits part board.eraseSize) {flash : Flash}
    (hin : part.off + part.size ≤ flash.size) :
    ∃ flash', flashPartWrites board partName writes flash = (writes.map fun _ => 0, flash') ∧
      flash'.size = flash.size ∧ flash'.bytes = writes.foldl (PartWrite.apply part) flash.bytes := by
  induction writes generalizing flash with
  | nil => exact ⟨flash, rfl, rfl, rfl⟩
  | cons w writes ih =>
      have hw := hwrites w List.mem_cons_self
      obtain ⟨flash₁, hfirst, hsize₁, hbytes₁⟩ :=
        flashPartWrite_works hpart hin hw.range hw.length h
      obtain ⟨flash₂, hrest, hsize₂, hbytes₂⟩ :=
        ih (fun w' hw' => hwrites w' (List.mem_cons_of_mem _ hw')) (hsize₁.symm ▸ hin)
      refine ⟨flash₂, ?_, hsize₂.trans hsize₁, ?_⟩
      · unfold flashPartWrites
        rw [bind_run, hfirst, bind_run, hrest]
        rfl
      · rw [hbytes₂, hbytes₁]
        rfl

section Sample

def sampleBoard (part : Partition) : Board where
  hasFlash := true
  eraseSize := 64
  partition := fun _ => some part
  malloc := fun _ _ => true
  fails := fun _ => false
  debris := fun _ _ b => b

def erasedFlash (size : ℕ) : Flash where
  size := size
  bytes := fun _ => 0xff
  ops := 0
  accesses := []

theorem sampleBoard_works (part : Partition) : (sampleBoard part).Works :=
  ⟨rfl, by simp [sampleBoard], fun _ _ => rfl, fun _ => rfl⟩

end Sample

end Nwa50ax.Zyxel
