import Nwa50ax.Nmbm.Device

/-!
# Physical pages, block states and block walks

The retry wrappers around the chip, the two-bit block state table, the walk
over good blocks, and the routines that write management data block by block.
-/

namespace Nwa50ax.Nmbm

open ByteBuffer StateProgram

/-! ## Physical pages and blocks -/

/-- Repeats an operation of the chip until it returns zero, with `extra`
further attempts after the first one. -/
def tryTimes (operation : Driver (ℤ × α)) : ℕ → Driver (ℤ × α)
  | 0 => operation
  | extra + 1 => do
      let result ← operation
      if result.1 = 0 then
        return result
      tryTimes operation extra

def nmbmReadPhysPage (addr : ℕ) : Driver (ℤ × Page) :=
  tryTimes (lowerReadPage addr) (nmbmTryCount - 1)

def nmbmWritePhysPage (addr : ℕ) (data oob : Option (List UInt8))
    (mode : OobMode) : Driver Bool := do
  let result ← tryTimes (lowerWritePage addr data oob mode) (nmbmTryCount - 1)
  return decide (result.1 = 0)

def nmbmErasePhysBlock (addr : ℕ) : Driver Bool := do
  let result ← tryTimes (lowerEraseBlock addr) (nmbmTryCount - 1)
  return decide (result.1 = 0)

def setPageCache (cache : List UInt8) : Driver Unit :=
  modifyNi fun ni => { ni with pageCache := cache }

def nmbmCheckBadPhysBlock (ba : ℕ) : Driver Bool := do
  let ni ← getNi
  if ni.lower.hasIsBadBlock then
    lowerIsBadBlock (ba2addr ni ba)
  else
    let result ← nmbmReadPhysPage (ba2addr ni ba)
    setPageCache (overwrite ni.pageCache ni.writesize result.2.oob)
    if result.1 < 0 then
      return true
    return decide
      ((overwrite ni.pageCache ni.writesize result.2.oob)[ni.writesize]? ≠ some 0xff)

def Instance.pagesPerBlock (ni : Instance) : ℕ :=
  (ni.erasesize + ni.writesize - 1) / ni.writesize

/-- Writes the page cache to `count` consecutive pages, ignoring errors. -/
def writeRawPages (addr : ℕ) : ℕ → Driver Unit
  | 0 => pure ()
  | count + 1 => do
      let ni ← getNi
      let _ ← nmbmWritePhysPage addr (some (ni.pageCache.take ni.writesize))
        (some (ni.pageCache.drop ni.writesize)) .raw
      writeRawPages (addr + ni.writesize) count

def nmbmMarkPhysBadBlock (ba : ℕ) : Driver ℤ := do
  let ni ← getNi
  if ni.lower.hasMarkBadBlock then
    let result ← lowerMarkBadBlock (ba2addr ni ba)
    return result.1
  else
    setPageCache (List.replicate ni.rawpageSize 0)
    writeRawPages (ba2addr ni ba) ni.pagesPerBlock
    return 0

/-! ## Block state table -/

def nmbmGetBlockStateRaw (blockState : List (BitVec 32)) (ba : ℕ) : BitVec 32 :=
  (blockState.getD (ba / 16) 0 >>> (ba % 16 * 2)) &&& blockStMask

def nmbmGetBlockState (ni : Instance) (ba : ℕ) : BitVec 32 :=
  nmbmGetBlockStateRaw ni.blockState ba

/-- The unit of the state table with the state of one of its blocks replaced. -/
def setStateUnit (unit : BitVec 32) (shift : ℕ) (state : BitVec 32) : BitVec 32 :=
  (unit &&& ~~~(blockStMask <<< shift)) ||| ((state &&& blockStMask) <<< shift)

def nmbmSetBlockStateRaw (blockState : List (BitVec 32)) (ba : ℕ)
    (state : BitVec 32) : List (BitVec 32) :=
  blockState.set (ba / 16)
    (setStateUnit (blockState.getD (ba / 16) 0) (ba % 16 * 2) state)

def Instance.setBlockState (ni : Instance) (ba : ℕ) (state : BitVec 32) : Instance :=
  { ni with
    blockState := nmbmSetBlockStateRaw ni.blockState ba state
    blockStateChanged := ni.blockStateChanged +
      if nmbmGetBlockState ni ba = state &&& blockStMask then 0 else 1 }

def nmbmSetBlockState (ba : ℕ) (state : BitVec 32) : Driver Bool := do
  let ni ← getNi
  modifyNi fun ni => ni.setBlockState ba state
  return decide (nmbmGetBlockState ni ba ≠ state &&& blockStMask)

/-- `nmbm_set_block_state` as its callers use it, without the result. -/
def assignBlockState (ba : ℕ) (state : BitVec 32) : Driver Unit := do
  let _ ← nmbmSetBlockState ba state

/-! ## Walking over good blocks -/

/-- The body of the ascending walk, with `steps = limit - ba`. -/
def walkAscLoop (ni : Instance) (ba : ℕ) (nblock : ℤ) : ℕ → Option ℕ
  | 0 => none
  | steps + 1 =>
      let nblock :=
        if nmbmGetBlockState ni ba = blockStGood then nblock - 1 else nblock
      if nblock < 0 then some ba else walkAscLoop ni (ba + 1) nblock steps

def toInt32 (n : ℕ) : ℤ := if n % 2 ^ 32 < 2 ^ 31 then (n % 2 ^ 32 : ℕ) else (n % 2 ^ 32 : ℕ) - 2 ^ 32

def walkLimit (ni : Instance) (limit : ℕ) : ℕ :=
  if limit ≥ ni.blockCount then subU32 ni.blockCount 1 else limit

def nmbmBlockWalkAsc (ni : Instance) (ba count limit : ℕ) : Option ℕ :=
  walkAscLoop ni ba (toInt32 count) (walkLimit ni limit - ba)

/-- The body of the descending walk, with `steps = ba - limit`. -/
def walkDescLoop (ni : Instance) (ba : ℕ) (nblock : ℤ) : ℕ → Option ℕ
  | 0 => none
  | steps + 1 =>
      let nblock :=
        if nmbmGetBlockState ni ba = blockStGood then nblock - 1 else nblock
      if nblock < 0 then some ba else walkDescLoop ni (ba - 1) nblock steps

def nmbmBlockWalkDesc (ni : Instance) (ba count limit : ℕ) : Option ℕ :=
  walkDescLoop ni ba (toInt32 count) (ba - walkLimit ni limit)

/-- `count` and `limit` are passed on as `uint32_t`. -/
def nmbmBlockWalk (ni : Instance) (ascending : Bool) (ba : ℕ) (count limit : ℤ) :
    Option ℕ :=
  if ascending then
    nmbmBlockWalkAsc ni ba (count % 2 ^ 32).toNat (limit % 2 ^ 32).toNat
  else
    nmbmBlockWalkDesc ni ba (count % 2 ^ 32).toNat (limit % 2 ^ 32).toNat

/-! ## Scanning and initial mapping -/

def scanBadblocksFrom (ba : ℕ) : ℕ → Driver Unit
  | 0 => pure ()
  | count + 1 => do
      let bad ← nmbmCheckBadPhysBlock ba
      when bad (assignBlockState ba blockStBad)
      scanBadblocksFrom (ba + 1) count

def nmbmScanBadblocks : Driver Unit := do
  let ni ← getNi
  scanBadblocksFrom 0 ni.blockCount

/-- The physical blocks below `limit` that are not bad, in ascending order. -/
def usableBlocks (ni : Instance) (limit : ℕ) : List ℕ :=
  (List.range limit).filter fun pb => nmbmGetBlockState ni pb ≠ blockStBad

def nmbmBuildMappingTable : Driver Unit :=
  modifyNi fun ni =>
    let usable := usableBlocks ni ni.mgmtStartBa
    { ni with
      blockMapping := usable.map (fun pb : ℕ => (pb : ℤ)) ++
        List.replicate (ni.blockCount - usable.length) (-1)
      dataBlockCount := usable.length }

/-! ## Writing blocks -/

def markBad (ba : ℕ) : Driver Unit := do
  let _ ← nmbmMarkPhysBadBlock ba
  assignBlockState ba blockStBad

def eraseGoodBlock (ba : ℕ) : Driver Unit := do
  let ni ← getNi
  when (nmbmGetBlockState ni ba = blockStGood) do
    record (.mgmtBlock · ba)
    let success ← nmbmErasePhysBlock (ba2addr ni ba)
    when (success = false) (markBad ba)

def eraseBlocksFrom (ba : ℕ) : ℕ → Driver Unit
  | 0 => pure ()
  | count + 1 => do
      eraseGoodBlock ba
      eraseBlocksFrom (ba + 1) count

def nmbmEraseRange (ba limit : ℕ) : Driver Unit :=
  eraseBlocksFrom ba (limit - ba)

/-- Writes and verifies one page of `nmbm_write_repeated_data`, `count` times. -/
def writeRepeatedPages (data : List UInt8) (addr : ℕ) : ℕ → Driver Bool
  | 0 => pure true
  | count + 1 => do
      let ni ← getNi
      setPageCache (data ++ List.replicate (ni.rawpageSize - data.length) 0xff)
      let ni ← getNi
      let success ← nmbmWritePhysPage addr
        (some (ni.pageCache.take ni.writesize)) none .placeOob
      if success = false then
        return false
      let result ← nmbmReadPhysPage addr
      setPageCache (overwrite ni.pageCache 0 result.2.data)
      if result.1 ≠ 0 then
        return false
      if result.2.data.take data.length ≠ data then
        return false
      writeRepeatedPages data (addr + ni.writesize) count

def nmbmWriteRepeatedData (ba : ℕ) (data : List UInt8) : Driver Bool := do
  let ni ← getNi
  if data.length > ni.writesize then
    return false
  writeRepeatedPages data (ba2addr ni ba) ni.pagesPerBlock

/-- The body of `nmbm_write_signature`: the `count` blocks below and including
`ba`, in descending order. -/
def writeSignatureFrom (signature : List UInt8) (ba : ℕ) : ℕ → Driver (Option ℕ)
  | 0 => pure none
  | count + 1 => do
      let ni ← getNi
      if nmbmGetBlockState ni ba ≠ blockStGood then
        writeSignatureFrom signature (ba - 1) count
      else
        let erased ← nmbmErasePhysBlock (ba2addr ni ba)
        let success ← runIf erased false (nmbmWriteRepeatedData ba signature)
        if success then
          return some ba
        markBad ba
        writeSignatureFrom signature (ba - 1) count

def nmbmWriteSignature (limit : ℕ) (signature : List UInt8) : Driver (Option ℕ) := do
  let ni ← getNi
  writeSignatureFrom signature (ni.blockCount - 1) (ni.blockCount - 1 - limit)

/-- The body of `nmbn_read_data`; every round delivers at least one byte, so
`fuel` is the number of bytes to read. -/
def readDataLoop (off : ℕ) : ℕ → ℕ → Driver (ℤ × List UInt8)
  | 0, _ => pure (0, [])
  | fuel + 1, size => do
      if size = 0 then
        return (0, [])
      let ni ← getNi
      let leading := off % ni.writesize
      let chunksize := min (ni.writesize - leading) size
      let result ← nmbmReadPhysPage (off - leading)
      when (chunksize ≠ ni.writesize)
        (setPageCache (overwrite ni.pageCache 0 result.2.data))
      if result.1 ≠ 0 then
        return (result.1, [])
      let rest ← readDataLoop (off + chunksize) fuel (size - chunksize)
      return (rest.1, slice result.2.data leading chunksize ++ rest.2)

def nmbnReadData (addr size : ℕ) : Driver (ℤ × List UInt8) :=
  readDataLoop addr size size

/-- The body of `nmbn_write_verify_data`; every round writes at least one byte,
so `fuel` is the number of bytes to write. -/
def writeVerifyLoop (off : ℕ) : ℕ → List UInt8 → Driver Bool
  | 0, _ => pure true
  | fuel + 1, data => do
      if data = [] then
        return true
      let ni ← getNi
      let leading := off % ni.writesize
      let chunk := data.take (ni.writesize - leading)
      setPageCache (overwrite (List.replicate ni.rawpageSize 0xff) leading chunk)
      let ni ← getNi
      let success ← nmbmWritePhysPage (off - leading)
        (some (ni.pageCache.take ni.writesize)) none .placeOob
      if success = false then
        return false
      let result ← nmbmReadPhysPage (off - leading)
      setPageCache (overwrite ni.pageCache 0 result.2.data)
      if result.1 ≠ 0 then
        return false
      if slice result.2.data leading chunk.length ≠ chunk then
        return false
      writeVerifyLoop (off + chunk.length) fuel (data.drop chunk.length)

def nmbnWriteVerifyData (addr : ℕ) (data : List UInt8) : Driver Bool :=
  writeVerifyLoop addr data.length data

/-- Where management data has been written: its first block, the block after
its last one, and the blocks that hold it. -/
structure Placement where
  startBa : ℕ
  endBa : ℕ
  blocks : List ℕ
  deriving DecidableEq, Repr

/-- The body of `nmbm_write_mgmt_range`, with `steps = limit - ba`.  `blocks`
holds the blocks written so far. -/
def writeMgmtLoop (ba : ℕ) (data : List UInt8) (blocks : List ℕ) :
    ℕ → Driver (Option Placement)
  | 0 => pure (if data = [] then some ⟨blocks.headD 0, ba, blocks⟩ else none)
  | steps + 1 => do
      if data = [] then
        return some ⟨blocks.headD 0, ba, blocks⟩
      let ni ← getNi
      if nmbmGetBlockState ni ba ≠ blockStGood then
        writeMgmtLoop (ba + 1) data blocks steps
      else
        record (.mgmtBlock · ba)
        let erased ← nmbmErasePhysBlock (ba2addr ni ba)
        let success ← runIf erased false
          (nmbnWriteVerifyData (ba2addr ni ba) (data.take ni.erasesize))
        if success then
          writeMgmtLoop (ba + 1) (data.drop ni.erasesize) (blocks ++ [ba]) steps
        else
          markBad ba
          writeMgmtLoop (ba + 1) data blocks steps

def nmbmWriteMgmtRange (ba limit : ℕ) (data : List UInt8) :
    Driver (Option Placement) :=
  writeMgmtLoop ba data [] (limit - ba)

end Nwa50ax.Nmbm
