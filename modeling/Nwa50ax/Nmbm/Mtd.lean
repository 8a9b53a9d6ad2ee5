import Nwa50ax.Nmbm.Api

/-!
# The MTD device on top of NMBM

`nmbm_mtd_read_oob` and `nmbm_mtd_write_oob` hand requests without spare bytes
to `nmbm_read_range` and `nmbm_write_range`.  Requests with spare bytes go page
by page, with one cursor for the main data and one for the spare bytes.
-/

namespace Nwa50ax.Nmbm

open ByteBuffer

def ebadmsg : ℤ := 74

/-- The members of `struct nmbm_mtd` and of its two `struct mtd_info` that the
requests use; `page_cache` has room for one page and its spare bytes. -/
structure NmbmMtd where
  size : UInt64
  oobavail : ℕ
  pageCache : List UInt8
  deriving DecidableEq, Repr

/-- What a caller passes in `struct mtd_oob_ops`.  A buffer is `none` for the
null pointer; the buffers of a read request only count as present or absent. -/
structure OobOps where
  mode : OobMode
  len : ℕ
  ooblen : ℕ
  ooboffs : ℕ
  datbuf : Option (List UInt8)
  oobbuf : Option (List UInt8)
  deriving DecidableEq, Repr

def mtdOobavail (nm : NmbmMtd) (ni : Instance) (ops : OobOps) : ℕ :=
  if ops.mode = .autoOob then nm.oobavail else ni.oobsize

def pageColumn (ni : Instance) (addr : UInt64) : ℕ := addr.toNat % ni.writesize

/-- The page address `addr & ~writesize_mask`.  The mask is an `unsigned int`,
so that its complement clears the upper half of the address as well. -/
def pageAddress (ni : Instance) (addr : UInt64) : ℕ :=
  addr.toNat % 2 ^ 32 - pageColumn ni addr

/-- The checks of a request with spare bytes.  The sum of offset and length is
a `size_t` of 32 bits. -/
def oobRangeOk (nm : NmbmMtd) (ni : Instance) (start : UInt64) (ops : OobOps) : Bool :=
  decide (ops.ooboffs < mtdOobavail nm ni ops) && decide (start < nm.size) &&
    decide (u32 (ops.ooboffs + ops.ooblen) ≤
      (nm.size.toNat / ni.writesize - start.toNat / ni.writesize) * mtdOobavail nm ni ops)

/-! ## Reading -/

structure ReadCursor where
  addr : ℕ
  col : ℕ
  ooboffs : ℕ
  len : ℕ
  ooblen : ℕ
  data : List UInt8
  oob : List UInt8
  retlen : ℕ
  oobretlen : ℕ
  deriving DecidableEq, Repr

def ReadCursor.moveData (c : ReadCursor) (ni : Instance) (page : Page) : ReadCursor :=
  if c.len = 0 then c
  else
    let chklen := min (ni.writesize - c.col) c.len
    { c with
      data := c.data ++ slice page.data c.col chklen
      len := c.len - chklen
      col := 0
      retlen := c.retlen + chklen }

def ReadCursor.moveOob (c : ReadCursor) (maxooblen : ℕ) (page : Page) : ReadCursor :=
  if c.ooblen = 0 then c
  else
    let chklen := min (maxooblen - c.ooboffs) c.ooblen
    { c with
      oob := c.oob ++ slice page.oob c.ooboffs chklen
      ooblen := c.ooblen - chklen
      ooboffs := 0
      oobretlen := c.oobretlen + chklen }

/-- The loop of `nmbm_mtd_read_data`; every round takes at least one byte, so
`fuel` is the number of bytes asked for. -/
def mtdReadLoop (maxooblen : ℕ) : ℕ → ReadCursor → Driver (ℤ × ReadCursor)
  | 0, c => pure (0, c)
  | fuel + 1, c => do
      if c.len = 0 ∧ c.ooblen = 0 then
        return (0, c)
      let ni ← getNi
      let result ← nmbmReadSinglePage (UInt64.ofNat c.addr)
      if result.1 ≠ 0 then
        return (if result.1 > 0 then -ebadmsg else -eio, c)
      let c := (c.moveData ni result.2).moveOob maxooblen result.2
      mtdReadLoop maxooblen fuel { c with addr := c.addr + ni.writesize }

def nmbmMtdReadData (nm : NmbmMtd) (start : UInt64) (ops : OobOps) :
    Driver (ℤ × ReadCursor) := do
  let ni ← getNi
  mtdReadLoop (mtdOobavail nm ni ops) (ops.len + ops.ooblen)
    ⟨pageAddress ni start, pageColumn ni start, ops.ooboffs, ops.len, ops.ooblen, [], [], 0, 0⟩

structure ReadResult where
  ret : ℤ
  data : List UInt8
  retlen : ℕ
  deriving DecidableEq, Repr

def nmbmMtdReadOob (nm : NmbmMtd) (start : UInt64) (ops : OobOps) : Driver ReadResult := do
  let ni ← getNi
  if ops.oobbuf = none ∧ ops.datbuf = none then
    return ⟨if ops.ooblen ≠ 0 ∨ ops.len ≠ 0 then -einval else 0, [], 0⟩
  if ops.datbuf ≠ none ∧ start + UInt64.ofNat ops.len > nm.size then
    return ⟨-einval, [], 0⟩
  if ops.oobbuf = none then
    let result ← nmbmReadRange start (UInt64.ofNat ops.len)
    return ⟨if result.1 > 0 then -ebadmsg else if result.1 ≠ 0 then -eio else 0,
      result.2, result.2.length⟩
  if oobRangeOk nm ni start ops = false then
    return ⟨-einval, [], 0⟩
  let result ← nmbmMtdReadData nm start ops
  return ⟨result.1, result.2.data, result.2.retlen⟩

/-! ## Writing -/

structure WriteCursor where
  addr : ℕ
  col : ℕ
  ooboffs : ℕ
  len : ℕ
  ooblen : ℕ
  retlen : ℕ
  oobretlen : ℕ
  cache : List UInt8
  deriving DecidableEq, Repr

/-- Fills `size` bytes of the cache from `base` on with a fragment at `off` and
with 0xff around it. -/
def fillCache (cache : List UInt8) (base size off : ℕ) (bytes : List UInt8) : List UInt8 :=
  let cache := overwrite cache base (List.replicate off 0xff)
  let cache := overwrite cache (base + off) bytes
  overwrite cache (base + off + bytes.length)
    (List.replicate (size - off - bytes.length) 0xff)

def WriteCursor.moveData (c : WriteCursor) (ni : Instance) (ops : OobOps) : WriteCursor :=
  if c.len = 0 then c
  else
    let chklen := min (ni.writesize - c.col) c.len
    { c with
      cache := fillCache c.cache 0 ni.writesize c.col
        (slice (ops.datbuf.getD []) c.retlen chklen)
      len := c.len - chklen
      col := 0
      retlen := c.retlen + chklen }

def WriteCursor.moveOob (c : WriteCursor) (ni : Instance) (maxooblen : ℕ) (ops : OobOps) :
    WriteCursor :=
  if c.ooblen = 0 then c
  else
    let chklen := min (maxooblen - c.ooboffs) c.ooblen
    { c with
      cache := fillCache c.cache ni.writesize ni.oobsize c.ooboffs
        (slice (ops.oobbuf.getD []) c.oobretlen chklen)
      ooblen := c.ooblen - chklen
      ooboffs := 0
      oobretlen := c.oobretlen + chklen }

/-- The main data that a round passes on: the pointer to the cache is chosen
once, from the length of the whole request. -/
def WriteCursor.datcache (c : WriteCursor) (ni : Instance) (ops : OobOps) :
    Option (List UInt8) :=
  if ops.len = 0 then none else some (slice c.cache 0 ni.writesize)

/-- The spare bytes that a round passes on, as many as the lower device takes. -/
def WriteCursor.oobcache (c : WriteCursor) (ni : Instance) (maxooblen : ℕ) (ops : OobOps) :
    Option (List UInt8) :=
  if ops.ooblen = 0 then none else some (slice c.cache ni.writesize maxooblen)

/-- The loop of `nmbm_mtd_write_data`; every round takes at least one byte, so
`fuel` is the number of bytes to write. -/
def mtdWriteLoop (maxooblen : ℕ) (ops : OobOps) : ℕ → WriteCursor → Driver (ℤ × WriteCursor)
  | 0, c => pure (0, c)
  | fuel + 1, c => do
      if c.len = 0 ∧ c.ooblen = 0 then
        return (0, c)
      let ni ← getNi
      let c := (c.moveData ni ops).moveOob ni maxooblen ops
      let ret ← nmbmWriteSinglePage (UInt64.ofNat c.addr) (c.datcache ni ops)
        (c.oobcache ni maxooblen ops) ops.mode
      if ret ≠ 0 then
        return (ret, c)
      mtdWriteLoop maxooblen ops fuel { c with addr := c.addr + ni.writesize }

def nmbmMtdWriteData (nm : NmbmMtd) (start : UInt64) (ops : OobOps) :
    Driver (ℤ × WriteCursor) := do
  let ni ← getNi
  mtdWriteLoop (mtdOobavail nm ni ops) ops (ops.len + ops.ooblen)
    ⟨pageAddress ni start, pageColumn ni start, ops.ooboffs, ops.len, ops.ooblen, 0, 0,
      nm.pageCache⟩

structure WriteResult where
  ret : ℤ
  retlen : ℕ
  oobretlen : ℕ
  deriving DecidableEq, Repr

def nmbmMtdWriteOob (nm : NmbmMtd) (start : UInt64) (ops : OobOps) : Driver WriteResult := do
  let ni ← getNi
  if ops.oobbuf = none ∧ ops.datbuf = none then
    return ⟨if ops.ooblen ≠ 0 ∨ ops.len ≠ 0 then -einval else 0, 0, 0⟩
  if ops.datbuf ≠ none ∧ start + UInt64.ofNat ops.len > nm.size then
    return ⟨-einval, 0, 0⟩
  if ops.oobbuf = none then
    let result ← nmbmWriteRange start ((ops.datbuf.getD []).take ops.len) ops.mode
    return ⟨result.1, result.2, 0⟩
  if oobRangeOk nm ni start ops = false then
    return ⟨-einval, 0, 0⟩
  let result ← nmbmMtdWriteData nm start ops
  return ⟨result.1, result.2.retlen, result.2.oobretlen⟩

end Nwa50ax.Nmbm
