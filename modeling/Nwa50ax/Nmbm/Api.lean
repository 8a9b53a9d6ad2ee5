import Nwa50ax.Nmbm.Attach

/-!
# The public operations

Erasing, reading, writing and marking bad on logic addresses, and runs of
such operations.
-/

namespace Nwa50ax.Nmbm

open ByteBuffer StateProgram

def Instance.unmap (ni : Instance) (lb : ℕ) : Instance :=
  { ni with blockMapping := ni.blockMapping.set lb (-1) }

/-! ## Erasing -/

/-- The part of a round of `nmbm_erase_logic_block` that replaces the physical
block; with a new block the erase is tried `again`. -/
def remapLogicBlock (lb pb : ℕ) (again : Driver ℤ) : Driver ℤ := do
  let success ← nmbmMapBlock lb
  when (success = false) (modifyNi (·.unmap lb))
  let ni ← getNi
  when (nmbmGetBlockState ni pb ≠ blockStNeedRemap) (assignBlockState pb blockStBad)
  if success = false then
    record .unmapBlock
    let _ ← nmbmUpdateInfoTable
    return -eio
  let _ ← nmbmUpdateInfoTable
  again

/-- The loop of `nmbm_erase_logic_block`.  Every further round has taken one
block away from the spare blocks, so `rounds` need not exceed their number. -/
def eraseLogicBlockLoop (lb : ℕ) : ℕ → Driver ℤ
  | 0 => pure (-eio)
  | rounds + 1 => do
      let ni ← getNi
      let entry := ni.blockMapping.getD lb (-1)
      if entry < 0 then
        return -eio
      let pb := entry.toNat
      let needRemap :=
        decide (nmbmGetBlockState ni pb = blockStBad ∨
          nmbmGetBlockState ni pb = blockStNeedRemap)
      let erased ← runIf (needRemap = false) false (nmbmErasePhysBlock (ba2addr ni pb))
      if erased then
        return 0
      when (needRemap = false) (markBad pb)
      remapLogicBlock lb pb (eraseLogicBlockLoop lb rounds)

def nmbmEraseLogicBlock (lb : ℕ) : Driver ℤ := do
  let ni ← getNi
  eraseLogicBlockLoop lb (ni.mappingBlocksTopBa + 2)

/-- Erases the `count` logic blocks from `ba` on; the first failing block is
returned together with its error. -/
def eraseLogicBlocks (ba : ℕ) : ℕ → Driver (ℤ × Option ℕ)
  | 0 => pure (0, none)
  | count + 1 => do
      let ni ← getNi
      let ret ← nmbmEraseLogicBlock ba
      if ret ≠ 0 then
        return (ret, some (ba2addr ni ba))
      eraseLogicBlocks (ba + 1) count

def nmbmEraseBlockRange (addr size : UInt64) : Driver (ℤ × Option ℕ) := do
  let ni ← getNi
  if ni.protectedMode then
    return (-erofs, none)
  if addr.toNat ≥ ba2addr ni ni.dataBlockCount then
    return (-einval, none)
  if (addr + size).toNat > ba2addr ni ni.dataBlockCount then
    return (-einval, none)
  if size = 0 then
    return (0, none)
  let startBa := addr2ba ni addr.toNat
  let endBa := addr2ba ni (addr + size - 1).toNat
  eraseLogicBlocks startBa (endBa + 1 - startBa)

/-! ## Reading -/

def Instance.inBlockOffset (ni : Instance) (addr : ℕ) : ℕ := addr % ni.erasesize

def nmbmReadLogicPage (addr : ℕ) : Driver (ℤ × Page) := do
  let ni ← getNi
  let entry := ni.blockMapping.getD (addr2ba ni addr) (-1)
  if entry < 0 then
    return (-eio, ⟨[], []⟩)
  let pb := entry.toNat
  if nmbmGetBlockState ni pb = blockStBad then
    return (-eio, ⟨[], []⟩)
  let result ← nmbmReadPhysPage (ba2addr ni pb + ni.inBlockOffset addr)
  if result.1 = 0 then
    return result
  if result.1 > 0 then
    return (1, result.2)
  assignBlockState pb blockStNeedRemap
  let _ ← nmbmUpdateInfoTable
  return (-eio, result.2)

def nmbmReadSinglePage (addr : UInt64) : Driver (ℤ × Page) := do
  let ni ← getNi
  if ni.protectedMode then
    return (-erofs, ⟨[], []⟩)
  if addr.toNat ≥ ba2addr ni ni.dataBlockCount then
    return (-einval, ⟨[], []⟩)
  nmbmReadLogicPage addr.toNat

/-- The loop of `nmbm_read_range`; `fuel` is the number of bytes to read.
The result is the returned value and the bytes read. -/
def readRangeLoop (off : ℕ) : ℕ → ℕ → Driver (ℤ × List UInt8)
  | 0, _ => pure (0, [])
  | fuel + 1, size => do
      if size = 0 then
        return (0, [])
      let ni ← getNi
      let leading := off % ni.writesize
      let chunksize := min (ni.writesize - leading) size
      let result ← nmbmReadLogicPage (off - leading)
      when (chunksize ≠ ni.writesize ∧ result.2.data ≠ []) (modifyNi fun ni =>
        { ni with pageCache := overwrite ni.pageCache 0 result.2.data })
      if result.1 ≠ 0 then
        return (result.1, [])
      let rest ← readRangeLoop (off + chunksize) fuel (size - chunksize)
      return (rest.1, slice result.2.data leading chunksize ++ rest.2)

def nmbmReadRange (addr size : UInt64) : Driver (ℤ × List UInt8) := do
  let ni ← getNi
  if ni.protectedMode then
    return (-erofs, [])
  if addr.toNat ≥ ba2addr ni ni.dataBlockCount then
    return (-einval, [])
  if (addr + size).toNat > ba2addr ni ni.dataBlockCount then
    return (-einval, [])
  readRangeLoop addr.toNat size.toNat size.toNat

/-! ## Writing -/

def recordProgram (program : PageProgram) : Driver Unit := fun w =>
  ((), { w with programs := w.programs ++ [program] })

def nmbmWriteLogicPage (addr : ℕ) (data oob : Option (List UInt8)) (mode : OobMode) :
    Driver ℤ := do
  let ni ← getNi
  let entry := ni.blockMapping.getD (addr2ba ni addr) (-1)
  if entry < 0 then
    return -eio
  let pb := entry.toNat
  if nmbmGetBlockState ni pb = blockStBad then
    return -eio
  recordProgram ⟨addr, data, oob⟩
  let success ← nmbmWritePhysPage (ba2addr ni pb + ni.inBlockOffset addr) data oob mode
  if success then
    return 0
  assignBlockState pb blockStNeedRemap
  let _ ← nmbmUpdateInfoTable
  return -eio

def nmbmWriteSinglePage (addr : UInt64) (data oob : Option (List UInt8))
    (mode : OobMode) : Driver ℤ := do
  let ni ← getNi
  if ni.protectedMode then
    return -erofs
  if addr.toNat ≥ ba2addr ni ni.dataBlockCount then
    return -einval
  nmbmWriteLogicPage addr.toNat data oob mode

/-- The page that a chunk of `nmbm_write_range` is written with: a whole page
directly, a part of one by way of the page cache. -/
def chunkPage (leading : ℕ) (chunk : List UInt8) : Driver (List UInt8) := do
  let ni ← getNi
  if chunk.length = ni.writesize then
    return chunk
  else
    let cache := overwrite (overwrite ni.pageCache 0 (List.replicate leading 0xff))
      leading chunk
    setPageCache cache
    return cache.take ni.writesize

/-- The loop of `nmbm_write_range`; `fuel` is the number of bytes to write.
The result is the returned value and the number of bytes left. -/
def writeRangeLoop (mode : OobMode) (off : ℕ) : ℕ → List UInt8 → Driver (ℤ × ℕ)
  | 0, data => pure (0, data.length)
  | fuel + 1, data => do
      if data = [] then
        return (0, 0)
      let ni ← getNi
      let leading := off % ni.writesize
      let chunk := data.take (ni.writesize - leading)
      let page ← chunkPage leading chunk
      let ret ← nmbmWriteLogicPage (off - leading) (some page) none mode
      if ret ≠ 0 then
        return (ret, data.length)
      writeRangeLoop mode (off + chunk.length) fuel (data.drop chunk.length)

/-- The result is the returned value and the number of bytes written. -/
def nmbmWriteRange (addr : UInt64) (data : List UInt8) (mode : OobMode) :
    Driver (ℤ × ℕ) := do
  let ni ← getNi
  if ni.protectedMode then
    return (-erofs, 0)
  if addr.toNat ≥ ba2addr ni ni.dataBlockCount then
    return (-einval, 0)
  if (addr + UInt64.ofNat data.length).toNat > ba2addr ni ni.dataBlockCount then
    return (-einval, 0)
  let result ← writeRangeLoop mode addr.toNat data.length data
  return (result.1, data.length - result.2)

/-! ## Bad blocks and size -/

def nmbmCheckBadBlock (ni : Instance) (addr : UInt64) : ℤ :=
  if addr.toNat ≥ ba2addr ni ni.dataBlockCount then -einval
  else
    let entry := ni.blockMapping.getD (addr2ba ni addr.toNat) (-1)
    if entry < 0 then 1
    else if nmbmGetBlockState ni entry.toNat = blockStBad then 1
    else 0

def nmbmMarkBadBlock (addr : UInt64) : Driver ℤ := do
  let ni ← getNi
  if addr.toNat ≥ ba2addr ni ni.dataBlockCount then
    return -einval
  let lb := addr2ba ni addr.toNat
  let entry := ni.blockMapping.getD lb (-1)
  if entry < 0 then
    return 0
  let pb := entry.toNat
  modifyNi (·.unmap lb)
  markBad pb
  record .unmapBlock
  let _ ← nmbmUpdateInfoTable
  return 0

/-! ## Runs -/

inductive Op where
  | erase (addr size : UInt64)
  | readPage (addr : UInt64)
  | readRange (addr size : UInt64)
  | writePage (addr : UInt64) (data oob : Option (List UInt8)) (mode : OobMode)
  | writeRange (addr : UInt64) (data : List UInt8) (mode : OobMode)
  | markBad (addr : UInt64)
  | checkBad (addr : UInt64)
  | detach

def Op.exec : Op → Driver ℤ
  | .erase addr size => do return (← nmbmEraseBlockRange addr size).1
  | .readPage addr => do return (← nmbmReadSinglePage addr).1
  | .readRange addr size => do return (← nmbmReadRange addr size).1
  | .writePage addr data oob mode => nmbmWriteSinglePage addr data oob mode
  | .writeRange addr data mode => do return (← nmbmWriteRange addr data mode).1
  | .markBad addr => nmbmMarkBadBlock addr
  | .checkBad addr => do return nmbmCheckBadBlock (← getNi) addr
  | .detach => nmbmDetach

def runOps : List Op → Driver Unit
  | [] => pure ()
  | op :: ops => do
      let _ ← op.exec
      runOps ops

end Nwa50ax.Nmbm
