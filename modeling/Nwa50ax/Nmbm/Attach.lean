import Nwa50ax.Nmbm.InfoTable

/-!
# Attaching to a chip

`nmbm_attach` looks for the signature.  Without one it creates the management
area from scratch; with one it searches the management area for info tables,
selects the newer of the first two it accepts, and repairs the other one.
-/

namespace Nwa50ax.Nmbm

open ByteBuffer StateProgram

/-! ## Creation -/

def Instance.setMgmtStart (ni : Instance) (ba : ℕ) : Instance :=
  { ni with mgmtStartBa := ba }

def Instance.setSignature (ni : Instance) (sig : Signature) : Instance :=
  { ni with signature := sig }

def Instance.setSignatureBa (ni : Instance) (ba : ℕ) : Instance :=
  { ni with signatureBa := ba }

def Instance.setTop (ni : Instance) (top : ℕ) : Instance :=
  { ni with mappingBlocksTopBa := top }

def Instance.addDataBlock (ni : Instance) : Instance :=
  { ni with dataBlockCount := ni.dataBlockCount + 1 }

/-- Maps the logic blocks `lb`, `lb + 1`, .. of the data area that have no
physical block yet, `count` of them at most. -/
def remapDataEnd (lb : ℕ) : ℕ → Driver Unit
  | 0 => pure ()
  | count + 1 => do
      let success ← nmbmMapBlock lb
      if success then
        modifyNi Instance.addDataBlock
        remapDataEnd (lb + 1) count

def nmbmCreateInfoTable : Driver Bool := do
  let ni ← getNi
  match nmbmBlockWalk ni false ni.signatureBa 1 ni.mgmtStartBa with
  | none => return false
  | some top =>
      modifyNi (·.setTop top)
      let _ ← nmbmGenerateInfoTableCache
      let success ← nmbmRebuildInfoTable
      if success = false then
        return false
      let ni ← getNi
      remapDataEnd ni.dataBlockCount (ni.mgmtStartBa - ni.dataBlockCount)
      nmbmUpdateInfoTable

/-- `sizeof(struct nmbm_signature)`, with the tail padding that the 64-bit
member asks for. -/
def signatureBytes : ℕ := 48

def Signature.toBytes (sig : Signature) : List UInt8 :=
  toLE 4 sig.magic ++ toLE 4 sig.version ++ toLE 4 sig.size ++
    toLE 4 sig.checksum ++ toLE 8 sig.nandSize ++ toLE 4 sig.blockSize ++
    toLE 4 sig.pageSize ++ toLE 4 sig.spareSize ++ toLE 4 sig.mgmtStartPb ++
    toLE 1 sig.maxTryCount ++ List.replicate 7 0

def Signature.ofBytes (data : List UInt8) : Signature where
  magic := word32 data 0
  version := word32 data 4
  size := word32 data 8
  checksum := word32 data 12
  nandSize := fromLE (slice data 16 8)
  blockSize := word32 data 24
  pageSize := word32 data 28
  spareSize := word32 data 32
  mgmtStartPb := word32 data 36
  maxTryCount := fromLE (slice data 40 1)

/-- The boundary of the management blocks on a new chip. -/
def mgmtStart (ni : Instance) : ℕ :=
  let ratio := ni.lower.maxRatio.toNat
  let reserved := ni.lower.maxReservedBlocks.toNat
  let start := u32 (ni.blockCount * subU32 nmbmMgmtDiv ratio) / nmbmMgmtDiv
  if reserved ≠ 0 ∧ subU32 ni.blockCount start > reserved then
    subU32 ni.blockCount reserved
  else start

def newSignature (ni : Instance) : Signature where
  magic := nmbmMagicSignature
  version := nmbmVer
  size := signatureBytes
  checksum := 0
  nandSize := ni.lower.size.toNat
  blockSize := ni.erasesize
  pageSize := ni.writesize
  spareSize := ni.oobsize
  mgmtStartPb := ni.mgmtStartBa
  maxTryCount := nmbmTryCount

def nmbmCreateNew : Driver Bool := do
  modifyNi fun ni => ni.setMgmtStart (mgmtStart ni)
  nmbmScanBadblocks
  nmbmBuildMappingTable
  let ni ← getNi
  let bytes := nmbmUpdateChecksum (newSignature ni).toBytes signatureBytes
  modifyNi (·.setSignature (Signature.ofBytes bytes))
  match ← nmbmWriteSignature ni.mgmtStartBa bytes with
  | none => return false
  | some ba =>
      modifyNi (·.setSignatureBa ba)
      nmbmCreateInfoTable

/-! ## Loading -/

def nmbmCheckInfoTableHeader (ni : Instance) (data : List UInt8) : Bool :=
  let hdr := InfoTableHeader.ofBytes data
  decide (hdr.magic = nmbmMagicInfoTable) &&
    decide (hdr.size = ni.infoTableSize) &&
    decide (ni.stateTableSize ≤ subU32 hdr.mappingTableOff hdr.stateTableOff) &&
    decide (ni.mappingTableSize ≤ subU32 ni.infoTableSize hdr.mappingTableOff)

def imageMapping (data : List UInt8) (lb : ℕ) : ℕ :=
  word32 data ((InfoTableHeader.ofBytes data).mappingTableOff + 4 * lb)

def imageState (ni : Instance) (data : List UInt8) : List (BitVec 32) :=
  stateTableOfBytes (ni.stateTableSize / 4)
    (data.drop (InfoTableHeader.ofBytes data).stateTableOff)

def checkMappingLoop (ni : Instance) (data : List UInt8) (endBa lb minimum : ℕ) :
    ℕ → Option ℕ
  | 0 => some minimum
  | count + 1 =>
      let pb := imageMapping data lb
      if (pb ≥ ni.dataBlockCount ∧ pb < endBa) ∨ pb = ni.signatureBa then none
      else
        checkMappingLoop ni data endBa (lb + 1)
          (if pb ≥ endBa ∧ pb < minimum then pb else minimum) count

def nmbmCheckInfoTable (ni : Instance) (startBa endBa : ℕ) (data : List UInt8) :
    Option ℕ :=
  match checkMappingLoop ni data endBa 0 ni.signatureBa ni.dataBlockCount with
  | none => none
  | some minimum =>
      if (List.range' startBa (endBa - startBa)).all (fun ba =>
          nmbmGetBlockState ni ba ≠ blockStGood ∨
            nmbmGetBlockStateRaw (imageState ni data) ba = blockStGood) then
        some (subU32 minimum 1)
      else none

/-- The loop of `nmbm_try_load_info_table` over the `count` blocks from `ba`
on: `size` bytes are still to be read, `data` holds those read so far, and
`startBa` is the block of the header once it has been found.  A table that
cannot be read gives `none`. -/
def readTableLoop (ba size : ℕ) (data : List UInt8) (startBa : Option ℕ) :
    ℕ → Driver (Option (ℕ × List UInt8))
  | 0 => pure (if size = 0 then some (startBa.getD 0, data) else none)
  | count + 1 => do
      let ni ← getNi
      if size = 0 then
        return some (startBa.getD 0, data)
      if nmbmGetBlockState ni ba ≠ blockStGood then
        readTableLoop (ba + 1) size data startBa count
      else
        let bad ← nmbmCheckBadPhysBlock ba
        if bad then
          assignBlockState ba blockStBad
          readTableLoop (ba + 1) size data startBa count
        else
          let chunksize := min size ni.erasesize
          let result ← nmbnReadData (ba2addr ni ba) chunksize
          if result.1 < 0 then
            assignBlockState ba blockStBad
            readTableLoop (ba + 1) size data startBa count
          else if result.1 > 0 then
            return none
          else if startBa = none ∧ nmbmCheckInfoTableHeader ni result.2 = false then
            return none
          else
            readTableLoop (ba + 1) (size - chunksize) (data ++ result.2)
              (some (startBa.getD ba)) count

/-- What the loader learns from an accepted table. -/
structure TableInfo where
  endBa : ℕ
  writeCount : ℕ
  mappingBlocksTopBa : ℕ
  deriving DecidableEq, Repr

def Instance.loadImage (ni : Instance) (data : List UInt8) : Instance :=
  let hdr := InfoTableHeader.ofBytes data
  let mapping := mappingTableOfBytes (ni.mappingTableSize / 4)
    (data.drop hdr.mappingTableOff)
  { ni with
    infoTable := hdr
    blockState := imageState ni data
    blockMapping := mapping ++ ni.blockMapping.drop mapping.length }

def nmbmTryLoadInfoTable (ba : ℕ) (tableLoaded : Bool) : Driver (Option TableInfo) := do
  let ni ← getNi
  let count := size2blk ni ni.infoTableSize
  match ← readTableLoop ba ni.infoTableSize [] none count with
  | none => return none
  | some (startBa, data) =>
      let ni ← getNi
      if nmbmCheckHeader data ni.infoTableSize = false then
        return none
      match nmbmCheckInfoTable ni startBa (ba + count) data with
      | none => return none
      | some top =>
          let writeCount := (InfoTableHeader.ofBytes data).writeCount
          when (tableLoaded = false ∨ writeCount > ni.infoTable.writeCount)
            (modifyNi fun ni => ni.loadImage data)
          noteTable ⟨ba, ba + count, List.range' ba count⟩
          return some ⟨ba + count, writeCount, top⟩

def searchInfoTableLoop (ba : ℕ) (tableLoaded : Bool) :
    ℕ → Driver (Option (ℕ × TableInfo))
  | 0 => pure none
  | count + 1 => do
      match ← nmbmTryLoadInfoTable ba tableLoaded with
      | some info => return some (ba, info)
      | none => searchInfoTableLoop (ba + 1) tableLoaded count

def nmbmSearchInfoTable (ba limit : ℕ) (tableLoaded : Bool) :
    Driver (Option (ℕ × TableInfo)) := do
  let ni ← getNi
  searchInfoTableLoop ba tableLoaded
    (subU32 limit (size2blk ni ni.infoTableSize) - ba)

/-- The final `data_block_count`: the highest logic block below `limit` that
is mapped. -/
def lastMapped (blockMapping : List ℤ) : ℕ → Option ℕ
  | 0 => none
  | limit + 1 =>
      if blockMapping.getD limit (-1) ≥ 0 then some (limit + 1)
      else lastMapped blockMapping limit

def Instance.setChanged (ni : Instance) : Instance :=
  { ni with blockStateChanged := 1, blockMappingChanged := 1 }

def rewriteOtherTable (mainCount backupCount : ℕ) : Driver Bool := do
  let ni ← getNi
  if ni.backupTableBa = 0 then
    nmbmRescueSingleInfoTable
  else if mainCount ≠ backupCount then
    modifyNi Instance.setChanged
    nmbmUpdateSingleInfoTable (decide (mainCount < backupCount))
  else
    return true

/-- The part of `nmbm_load_info_table` after the tables have been selected. -/
def repairInfoTables (mainCount backupCount : ℕ) : Driver Unit := do
  let _ ← nmbmGenerateInfoTableCache
  let success ← rewriteOtherTable mainCount backupCount
  let ni ← getNi
  when (ni.mappingBlocksBa = ni.mappingBlocksTopBa ∨ success = false)
    (modifyNi Instance.setProtected)

def Instance.beginLoad (ni : Instance) : Instance :=
  { ni with
    mainTableBa := 0
    backupTableBa := 0
    infoTable := { ni.infoTable with writeCount := 0 }
    mappingBlocksTopBa := subU32 ni.signatureBa 1
    dataBlockCount := ni.signature.mgmtStartPb }

def lastTable (main : TableInfo) : Option (ℕ × TableInfo) → TableInfo
  | some (_, info) => info
  | none => main

def Instance.selectTables (ni : Instance) (main : TableInfo)
    (second : Option (ℕ × TableInfo)) : Instance :=
  { ni with
    backupTableBa := match second with
      | some (backupBa, _) => backupBa
      | none => 0
    mappingBlocksTopBa :=
      if main.writeCount ≥ (lastTable main second).writeCount then main.mappingBlocksTopBa
      else (lastTable main second).mappingBlocksTopBa
    mappingBlocksBa := (lastTable main second).endBa
    dataBlockCount :=
      (lastMapped ni.blockMapping ni.signature.mgmtStartPb).getD ni.dataBlockCount }

/-- The part of `nmbm_load_info_table` after the first table has been found. -/
def loadSecondTable (main : TableInfo) (limit : ℕ) : Driver Unit := do
  let second ← nmbmSearchInfoTable main.endBa limit true
  modifyNi (·.selectTables main second)
  record (.loadInfoTable · (lastTable main second).endBa)
  repairInfoTables main.writeCount (lastTable main second).writeCount

def nmbmLoadInfoTable (ba limit : ℕ) : Driver Bool := do
  modifyNi Instance.beginLoad
  match ← nmbmSearchInfoTable ba limit false with
  | none => return false
  | some (mainBa, main) =>
      modifyNi (·.setMainTable mainBa)
      loadSecondTable main limit
      return true

def nmbmLoadExisting : Driver Bool := do
  modifyNi fun ni => ni.setMgmtStart ni.signature.mgmtStartPb
  let ni ← getNi
  let success ← nmbmLoadInfoTable ni.mgmtStartBa ni.signatureBa
  if success then
    return true
  if ni.lower.flagCreate = false then
    return false
  nmbmScanBadblocks
  nmbmBuildMappingTable
  nmbmCreateInfoTable

/-! ## Attaching -/

def findSignatureInPages (addr : ℕ) : ℕ → Driver (Option Signature)
  | 0 => pure none
  | count + 1 => do
      let ni ← getNi
      let result ← nmbnReadData addr signatureBytes
      if result.1 = 0 ∧ nmbmCheckHeader result.2 signatureBytes = true ∧
          (Signature.ofBytes result.2).magic = nmbmMagicSignature then
        return some (Signature.ofBytes result.2)
      findSignatureInPages (addr + ni.writesize) count

def findSignatureLoop (limit ba : ℕ) : ℕ → Driver (Option (ℕ × Signature))
  | 0 => pure none
  | fuel + 1 => do
      if ba < limit then
        return none
      let ba := subU32 ba 1
      let ni ← getNi
      let bad ← nmbmCheckBadPhysBlock ba
      if bad then
        findSignatureLoop limit ba fuel
      else
        match ← findSignatureInPages (ba2addr ni ba) ni.pagesPerBlock with
        | some sig => return some (ba, sig)
        | none => findSignatureLoop limit ba fuel

/-- The lowest block that `nmbm_find_signature` is meant to look at. -/
def signatureLimit (ni : Instance) : ℕ :=
  let ratio := ni.lower.maxRatio.toNat
  let reserved := ni.lower.maxReservedBlocks.toNat
  let limit := u32 (ni.blockCount / nmbmMgmtDiv * subU32 nmbmMgmtDiv ratio)
  if reserved ≠ 0 ∧ subU32 ni.blockCount limit > reserved then
    subU32 ni.blockCount reserved
  else limit

def nmbmFindSignature : Driver (Option (ℕ × Signature)) := do
  let ni ← getNi
  findSignatureLoop (signatureLimit ni) ni.blockCount (ni.blockCount + 2)

def isPowerOf2 (n : ℕ) : Bool := decide (n ≠ 0 ∧ n &&& (n - 1) = 0)

/-- Validates the lower device, and fills in the default ratio. -/
def nmbmCheckLowerMembers (nld : LowerDevice) : Option LowerDevice :=
  if isPowerOf2 nld.size.toNat = false then none
  else if isPowerOf2 nld.erasesize.toNat = false then none
  else if isPowerOf2 nld.writesize.toNat = false then none
  else if isPowerOf2 nld.oobsize.toNat = false then none
  else
    let nld := if nld.maxRatio = 0 then { nld with maxRatio := 1 } else nld
    if nld.maxRatio.toNat ≥ nmbmMgmtDiv - 1 then none
    else if nld.maxReservedBlocks ≠ 0 ∧
        nld.maxReservedBlocks.toNat < nmbmMgmtBlocksMin then none
    else some nld

def nmbmGetSpareBlockCount (blockCount : ℕ) : ℕ :=
  max ((blockCount + nmbmSpareBlockDiv / 2) / nmbmSpareBlockDiv * nmbmSpareBlockMulti)
    nmbmSpareBlockMin

def nmbmAlign (v a : ℕ) : ℕ := u32 ((v + a - 1) / a * a)

def blockCountOf (nld : LowerDevice) : ℕ :=
  u32 (nld.size.toNat >>> Nat.log2 nld.erasesize.toNat)

def Instance.cleared (nld : LowerDevice) : Instance where
  lower := nld
  rawpageSize := 0
  signature := ⟨0, 0, 0, 0, 0, 0, 0, 0, 0, 0⟩
  infoTableCache := []
  infoTableSize := 0
  infoTableSpareBlocks := 0
  infoTable := ⟨0, 0, 0, 0, 0, 0, 0, 0⟩
  blockState := []
  blockStateChanged := 0
  stateTableSize := 0
  blockMapping := []
  blockMappingChanged := 0
  mappingTableSize := 0
  pageCache := []
  protectedMode := false
  blockCount := 0
  dataBlockCount := 0
  mgmtStartBa := 0
  mainTableBa := 0
  backupTableBa := 0
  mappingBlocksBa := 0
  mappingBlocksTopBa := 0
  signatureBa := 0

def World.powerOn (nld : LowerDevice) (flash : Flash) (pattern : ℕ → Response) : World where
  ni := Instance.cleared nld
  flash := flash
  pattern := pattern
  tick := 0
  reads := []
  programs := []
  ops := []
  calls := []
  tableBlocks := fun _ => []

def nmbmInitStructure (nld : LowerDevice) : Instance :=
  let writesize := nld.writesize.toNat
  let blockCount := blockCountOf nld
  let units := (blockCount + 15) / 16
  let stateTableSize := units * 4
  let mappingTableSize := u32 (blockCount * 4)
  let stateTableOff := nmbmAlign infoTableHeaderBytes writesize
  let mappingTableOff := u32 (stateTableOff + nmbmAlign stateTableSize writesize)
  let infoTableSize := u32 (mappingTableOff + nmbmAlign mappingTableSize writesize)
  let ni := Instance.cleared nld
  let ni := { ni with
    rawpageSize := u32 (writesize + nld.oobsize.toNat)
    blockCount := blockCount
    stateTableSize := stateTableSize
    mappingTableSize := mappingTableSize
    infoTable := { ni.infoTable with
      stateTableOff := stateTableOff, mappingTableOff := mappingTableOff }
    infoTableSize := infoTableSize
    infoTableCache := List.replicate infoTableSize 0
    blockState := List.replicate units (BitVec.allOnes 32)
    blockMapping := List.replicate blockCount 0
    pageCache := List.replicate (u32 (writesize + nld.oobsize.toNat)) 0 }
  { ni with
    infoTableSpareBlocks := nmbmGetSpareBlockCount (size2blk ni infoTableSize) }

def nmbmAttach (nld : LowerDevice) : Driver ℤ := do
  match nmbmCheckLowerMembers nld with
  | none => return -einval
  | some nld =>
      modifyNi fun _ => nmbmInitStructure nld
      match ← nmbmFindSignature with
      | none =>
          if nld.flagCreate = false then
            return -enodev
          let success ← nmbmCreateNew
          return if success then 0 else -enodev
      | some (ba, sig) =>
          modifyNi (·.setSignature sig |>.setSignatureBa ba)
          if sig.version ≠ nmbmVer then
            return -einval
          if sig.nandSize ≠ nld.size.toNat ∨ sig.blockSize ≠ nld.erasesize.toNat ∨
              sig.pageSize ≠ nld.writesize.toNat ∨ sig.spareSize ≠ nld.oobsize.toNat then
            return -einval
          let success ← nmbmLoadExisting
          return if success then 0 else -enodev

def nmbmDetach : Driver ℤ := do
  let _ ← nmbmUpdateInfoTable
  return 0

end Nwa50ax.Nmbm
