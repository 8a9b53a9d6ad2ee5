import Nwa50ax.Lib.Bytes
import Nwa50ax.Lib.StateSpec
import Mathlib.Tactic

/-!
# The lower NAND device and the NMBM instance

The lower device is a chip whose blocks hold pages of main data and spare
bytes.  What an operation returns, and what a failing operation leaves behind,
is decided by a failure pattern: one `Response` for each operation, in the
order in which the operations are issued.  The instance is the structure
`struct nmbm_instance`; block addresses and sizes are natural numbers, with
the 32-bit wrap-around written out where the code can reach it.
-/

namespace Nwa50ax.Nmbm

open ByteBuffer

/-! ## Constants -/

def nmbmMagicSignature : ℕ := 0x304d4d4e
def nmbmMagicInfoTable : ℕ := 0x314d4d4e
def nmbmVer : ℕ := 1
def nmbmSpareBlockMulti : ℕ := 1
def nmbmSpareBlockDiv : ℕ := 2
def nmbmSpareBlockMin : ℕ := 2
def nmbmMgmtDiv : ℕ := 16
def nmbmMgmtBlocksMin : ℕ := 32
def nmbmTryCount : ℕ := 3

def blockStBad : BitVec 32 := 0
def blockStNeedRemap : BitVec 32 := 2
def blockStGood : BitVec 32 := 3
def blockStMask : BitVec 32 := 3

def eio : ℤ := 5
def enodev : ℤ := 19
def einval : ℤ := 22
def erofs : ℤ := 30

/-- Conversion of a number to `uint32_t`. -/
@[irreducible] def u32 (n : ℕ) : ℕ := n % 2 ^ 32

@[irreducible] def subU32 (a b : ℕ) : ℕ := (a + 2 ^ 32 - b) % 2 ^ 32

theorem u32_lt (n : ℕ) : u32 n < 2 ^ 32 := by
  unfold u32
  exact Nat.mod_lt _ (by decide)

theorem subU32_lt (a b : ℕ) : subU32 a b < 2 ^ 32 := by
  unfold subU32
  exact Nat.mod_lt _ (by decide)

theorem subU32_one {n : ℕ} (hpos : 0 < n) (hlt : n < 2 ^ 32) : subU32 n 1 = n - 1 := by
  unfold subU32
  omega

/-! ## The lower device -/

inductive OobMode where
  | placeOob
  | autoOob
  | raw
  deriving DecidableEq, Repr

/-- The members of `struct nmbm_lower_device` that NMBM reads.  The three
mandatory callbacks are the chip below; the two optional ones may be absent. -/
structure LowerDevice where
  maxRatio : UInt32
  maxReservedBlocks : UInt32
  flagCreate : Bool
  size : UInt64
  erasesize : UInt32
  writesize : UInt32
  oobsize : UInt32
  hasIsBadBlock : Bool
  hasMarkBadBlock : Bool
  deriving DecidableEq, Repr

structure Page where
  data : List UInt8
  oob : List UInt8
  deriving DecidableEq, Repr

/-- What the chip holds: the pages of every block, and the blocks that are
marked bad. -/
structure Flash where
  pages : ℕ → ℕ → Page
  marked : ℕ → Bool

/-- The reaction of the chip to one operation: the returned value, the content
that a failing operation delivers or leaves, whether a bad-block query is
answered wrongly, and whether a bad-block mark sticks. -/
structure Response where
  ret : ℤ
  junk : ℕ → Page → Page
  misreport : Bool
  marks : Bool

def Response.ok : Response where
  ret := 0
  junk := fun _ page => page
  misreport := false
  marks := true

/-- One erase, program or mark-bad operation together with the content it
leaves on the chip. -/
inductive LowerOp where
  | eraseBlock (ba : ℕ) (left : ℕ → Page)
  | writePage (ba page : ℕ) (left : Page)
  | markBadBlock (ba : ℕ) (left : ℕ → Page) (marked : Bool)

def LowerOp.block : LowerOp → ℕ
  | .eraseBlock ba _ => ba
  | .writePage ba _ _ => ba
  | .markBadBlock ba _ _ => ba

def Flash.setBlock (flash : Flash) (ba : ℕ) (left : ℕ → Page) : Flash :=
  { flash with pages := fun b => if b = ba then left else flash.pages b }

def Flash.setPage (flash : Flash) (ba page : ℕ) (left : Page) : Flash :=
  { flash with
    pages := fun b => if b = ba then
      (fun p => if p = page then left else flash.pages b p) else flash.pages b }

def Flash.setMark (flash : Flash) (ba : ℕ) (mark : Bool) : Flash :=
  { flash with marked := fun b => if b = ba then mark else flash.marked b }

def LowerOp.apply : LowerOp → Flash → Flash
  | .eraseBlock ba left, flash => flash.setBlock ba left
  | .writePage ba page left, flash => flash.setPage ba page left
  | .markBadBlock ba left mark, flash => (flash.setBlock ba left).setMark ba mark

def replay (ops : List LowerOp) (flash : Flash) : Flash :=
  ops.foldl (fun f op => op.apply f) flash

/-! ## The instance -/

structure InfoTableHeader where
  magic : ℕ
  version : ℕ
  size : ℕ
  checksum : ℕ
  writeCount : ℕ
  stateTableOff : ℕ
  mappingTableOff : ℕ
  padding : ℕ
  deriving DecidableEq, Repr

structure Signature where
  magic : ℕ
  version : ℕ
  size : ℕ
  checksum : ℕ
  nandSize : ℕ
  blockSize : ℕ
  pageSize : ℕ
  spareSize : ℕ
  mgmtStartPb : ℕ
  maxTryCount : ℕ
  deriving DecidableEq, Repr

/-- `struct nmbm_instance`.  The shift counts and masks are derived from the
lower device, and the members that only steer the log output are left out. -/
structure Instance where
  lower : LowerDevice
  rawpageSize : ℕ
  signature : Signature
  infoTableCache : List UInt8
  infoTableSize : ℕ
  infoTableSpareBlocks : ℕ
  infoTable : InfoTableHeader
  blockState : List (BitVec 32)
  blockStateChanged : ℕ
  stateTableSize : ℕ
  blockMapping : List ℤ
  blockMappingChanged : ℕ
  mappingTableSize : ℕ
  pageCache : List UInt8
  protectedMode : Bool
  blockCount : ℕ
  dataBlockCount : ℕ
  mgmtStartBa : ℕ
  mainTableBa : ℕ
  backupTableBa : ℕ
  mappingBlocksBa : ℕ
  mappingBlocksTopBa : ℕ
  signatureBa : ℕ
  deriving DecidableEq, Repr

/-- The calls inside a run that the run conditions speak about, each with the
instance as it was at the call. -/
inductive Call where
  | mapBlock (ni : Instance)
  | markTablesClean (ni : Instance)
  | unmapBlock (ni : Instance)
  | loadInfoTable (ni : Instance) (tableEndBa : ℕ)
  | mgmtBlock (ni : Instance) (ba : ℕ)
  | writeMainTable (ni : Instance)
  | updateInfoTable (success : Bool) (ni : Instance) (flash : Flash)
    (tableBlocks : ℕ → List ℕ)

/-- A program operation on a logic page, as it is asked for. -/
structure PageProgram where
  addr : ℕ
  data : Option (List UInt8)
  oob : Option (List UInt8)
  deriving DecidableEq, Repr

/-- Driver and chip together.  `ops` and `calls` are the history of the run,
`reads` the blocks that have been looked at, the latest first, `programs` the
program operations on logic pages, and `tableBlocks` remembers which blocks the
info table that starts at a block was last written to or read from. -/
structure World where
  ni : Instance
  flash : Flash
  pattern : ℕ → Response
  tick : ℕ
  reads : List ℕ
  programs : List PageProgram
  ops : List LowerOp
  calls : List Call
  tableBlocks : ℕ → List ℕ

abbrev Driver := StateM World

def getNi : Driver Instance := fun w => (w.ni, w)

def World.mapNi (w : World) (f : Instance → Instance) : World :=
  { w with ni := f w.ni }

def modifyNi (f : Instance → Instance) : Driver Unit :=
  fun w => ((), w.mapNi f)

def record (call : Instance → Call) : Driver Unit :=
  fun w => ((), { w with calls := w.calls ++ [call w.ni] })

/-! ## Address conversion -/

def Instance.erasesize (ni : Instance) : ℕ := ni.lower.erasesize.toNat
def Instance.writesize (ni : Instance) : ℕ := ni.lower.writesize.toNat
def Instance.oobsize (ni : Instance) : ℕ := ni.lower.oobsize.toNat

/-- `ffs(erasesize) - 1`, for the power of two that `erasesize` is. -/
def Instance.erasesizeShift (ni : Instance) : ℕ := Nat.log2 ni.erasesize

def addr2ba (ni : Instance) (addr : ℕ) : ℕ := u32 (addr >>> ni.erasesizeShift)

def ba2addr (ni : Instance) (ba : ℕ) : ℕ := ba <<< ni.erasesizeShift

def size2blk (ni : Instance) (size : ℕ) : ℕ :=
  u32 ((size + ni.erasesize - 1) >>> ni.erasesizeShift)

/-! ## Operations of the chip -/

def blockOf (ni : Instance) (addr : ℕ) : ℕ := addr / ni.erasesize
def pageOf (ni : Instance) (addr : ℕ) : ℕ := addr % ni.erasesize / ni.writesize

def lowerReadPage (addr : ℕ) : Driver (ℤ × Page) := fun w =>
  let response := w.pattern w.tick
  let page := w.flash.pages (blockOf w.ni addr) (pageOf w.ni addr)
  let delivered :=
    if response.ret = 0 then page else response.junk (pageOf w.ni addr) page
  ((response.ret, delivered),
    { w with tick := w.tick + 1, reads := blockOf w.ni addr :: w.reads })

def issue (ret : ℤ) (op : LowerOp) (w : World) : (ℤ × Unit) × World :=
  ((ret, ()),
    { w with flash := op.apply w.flash, tick := w.tick + 1, ops := w.ops ++ [op] })

def lowerWritePage (addr : ℕ) (data oob : Option (List UInt8)) (_mode : OobMode) :
    Driver (ℤ × Unit) := fun w =>
  let response := w.pattern w.tick
  let ba := blockOf w.ni addr
  let pg := pageOf w.ni addr
  let page := w.flash.pages ba pg
  let left :=
    if response.ret = 0 then ⟨data.getD page.data, oob.getD page.oob⟩
    else response.junk pg page
  issue response.ret (.writePage ba pg left) w

def blankPage (ni : Instance) : Page where
  data := List.replicate ni.writesize 0xff
  oob := List.replicate ni.oobsize 0xff

def lowerEraseBlock (addr : ℕ) : Driver (ℤ × Unit) := fun w =>
  let response := w.pattern w.tick
  let ba := blockOf w.ni addr
  let left := fun pg =>
    if response.ret = 0 then blankPage w.ni
    else response.junk pg (w.flash.pages ba pg)
  issue response.ret (.eraseBlock ba left) w

def lowerIsBadBlock (addr : ℕ) : Driver Bool := fun w =>
  let response := w.pattern w.tick
  (xor (w.flash.marked (blockOf w.ni addr)) response.misreport,
    { w with tick := w.tick + 1, reads := blockOf w.ni addr :: w.reads })

def lowerMarkBadBlock (addr : ℕ) : Driver (ℤ × Unit) := fun w =>
  let response := w.pattern w.tick
  let ba := blockOf w.ni addr
  let left := fun pg => response.junk pg (w.flash.pages ba pg)
  issue response.ret
    (.markBadBlock ba left (w.flash.marked ba || response.marks)) w

end Nwa50ax.Nmbm
