import Nwa50ax.Nmbm.Blocks

/-!
# Info tables

The image of an info table holds the header, the block state table and the
block mapping table.  This module builds the image from the instance, checks
images read from the chip, and has all routines that place the main and the
backup table in the management area.
-/

namespace Nwa50ax.Nmbm

open ByteBuffer StateProgram

/-! ## Checksums -/

def crcPolynomial : ℕ := 0xedb88320

def crcBit (c : ℕ) : ℕ :=
  if c &&& 1 = 1 then crcPolynomial ^^^ (c >>> 1) else c >>> 1

/-- An entry of `crc_table`, as `make_crc_table` computes it. -/
def crcTable (n : ℕ) : ℕ := (List.range 8).foldl (fun c _ => crcBit c) n

def crcByte (crc : ℕ) (byte : UInt8) : ℕ :=
  crcTable ((crc ^^^ byte.toNat) &&& 255) ^^^ (crc >>> 8)

def crc32NoComp (crc : ℕ) (bytes : List UInt8) : ℕ := bytes.foldl crcByte crc

def nmbmCrc32 (crc : ℕ) (bytes : List UInt8) : ℕ := crc32NoComp crc bytes

/-- Offset of the `size` and `checksum` members of `struct nmbm_header`, and
the size of the structure. -/
def headerSizeOff : ℕ := 8
def headerChecksumOff : ℕ := 12
def headerBytes : ℕ := 16

def nmbmCheckHeader (data : List UInt8) (size : ℕ) : Bool :=
  let hdrSize := word32 data headerSizeOff
  if hdrSize > size then false
  else
    let nhdr := overwrite (data.take headerBytes) headerChecksumOff (toLE 4 0)
    let checksum := nmbmCrc32 0 nhdr
    let checksum :=
      if hdrSize > headerBytes then
        nmbmCrc32 checksum (slice data headerBytes (hdrSize - headerBytes))
      else checksum
    decide (word32 data headerChecksumOff = checksum)

/-- The structure with its checksum computed over the `size` bytes it
announces. -/
def nmbmUpdateChecksum (data : List UInt8) (size : ℕ) : List UInt8 :=
  let cleared := overwrite data headerChecksumOff (toLE 4 0)
  overwrite cleared headerChecksumOff (toLE 4 (nmbmCrc32 0 (cleared.take size)))

/-! ## Table images -/

def InfoTableHeader.toBytes (hdr : InfoTableHeader) : List UInt8 :=
  toLE 4 hdr.magic ++ toLE 4 hdr.version ++ toLE 4 hdr.size ++
    toLE 4 hdr.checksum ++ toLE 4 hdr.writeCount ++ toLE 4 hdr.stateTableOff ++
    toLE 4 hdr.mappingTableOff ++ toLE 4 hdr.padding

def InfoTableHeader.ofBytes (data : List UInt8) : InfoTableHeader where
  magic := word32 data 0
  version := word32 data 4
  size := word32 data 8
  checksum := word32 data 12
  writeCount := word32 data 16
  stateTableOff := word32 data 20
  mappingTableOff := word32 data 24
  padding := word32 data 28

def infoTableHeaderBytes : ℕ := 32

def stateTableToBytes (blockState : List (BitVec 32)) : List UInt8 :=
  blockState.flatMap fun unit => toLE 4 unit.toNat

def stateTableOfBytes (count : ℕ) (data : List UInt8) : List (BitVec 32) :=
  (toWords32 count data).map (BitVec.ofNat 32)

def mappingTableToBytes (blockMapping : List ℤ) : List UInt8 :=
  blockMapping.flatMap fun pb => toLE 4 (pb % 2 ^ 32).toNat

def mappingTableOfBytes (count : ℕ) (data : List UInt8) : List ℤ :=
  (toWords32 count data).map toInt32

def infoTableImage (ni : Instance) (hdr : InfoTableHeader) : List UInt8 :=
  let cache := List.replicate ni.infoTableSize 0xff
  let cache := overwrite cache hdr.stateTableOff
    ((stateTableToBytes ni.blockState).take ni.stateTableSize)
  let cache := overwrite cache hdr.mappingTableOff
    ((mappingTableToBytes ni.blockMapping).take ni.mappingTableSize)
  nmbmUpdateChecksum (overwrite cache 0 hdr.toBytes) ni.infoTableSize

/-- The header of the next image: the write count grows when the tables have
changed since they were last written. -/
def nextInfoTableHeader (ni : Instance) : InfoTableHeader :=
  { ni.infoTable with
    magic := nmbmMagicInfoTable
    version := nmbmVer
    size := ni.infoTableSize
    writeCount :=
      if ni.blockStateChanged ≠ 0 ∨ ni.blockMappingChanged ≠ 0 then
        u32 (ni.infoTable.writeCount + 1)
      else ni.infoTable.writeCount }

def Instance.generateCache (ni : Instance) : Instance :=
  { ni with
    infoTable := nextInfoTableHeader ni
    infoTableCache := infoTableImage ni (nextInfoTableHeader ni) }

def Instance.Changed (ni : Instance) : Prop :=
  ni.blockStateChanged ≠ 0 ∨ ni.blockMappingChanged ≠ 0

instance (ni : Instance) : Decidable ni.Changed :=
  inferInstanceAs (Decidable (ni.blockStateChanged ≠ 0 ∨ ni.blockMappingChanged ≠ 0))

def nmbmGenerateInfoTableCache : Driver Bool := do
  let ni ← getNi
  modifyNi Instance.generateCache
  return decide ni.Changed

def noteTable (place : Placement) : Driver Unit := fun w =>
  ((), { w with
    tableBlocks := fun ba => if ba = place.startBa then place.blocks else w.tableBlocks ba })

def nmbmWriteInfoTable (ba limit : ℕ) : Driver (Option Placement) := do
  let ni ← getNi
  match ← nmbmWriteMgmtRange ba limit ni.infoTableCache with
  | none => return none
  | some place =>
      noteTable place
      return some place

/-! ## Pointers to the tables -/

def Instance.setMainTable (ni : Instance) (startBa : ℕ) : Instance :=
  { ni with mainTableBa := startBa }

/-- `mapping_blocks_ba` always follows the end of the last table. -/
def Instance.setMappingBlocks (ni : Instance) (endBa : ℕ) : Instance :=
  { ni with mappingBlocksBa := endBa }

def Instance.setBackupTable (ni : Instance) (startBa : ℕ) : Instance :=
  { ni with backupTableBa := startBa }

def Instance.dropBackupTable (ni : Instance) : Instance :=
  { ni with mappingBlocksBa := ni.backupTableBa, backupTableBa := 0 }

def Instance.promoteBackupTable (ni : Instance) : Instance :=
  { ni with mainTableBa := ni.backupTableBa, backupTableBa := 0 }

def Instance.dropTables (ni : Instance) : Instance :=
  { ni with
    mainTableBa := 0
    backupTableBa := 0
    mappingBlocksBa := ni.mappingBlocksTopBa }

def Instance.setProtected (ni : Instance) : Instance :=
  { ni with protectedMode := true }

def Instance.clean (ni : Instance) : Instance :=
  { ni with blockStateChanged := 0, blockMappingChanged := 0 }

def nmbmMarkTablesClean : Driver Unit := do
  record .markTablesClean
  modifyNi Instance.clean

/-! ## Placing the tables -/

/-- The body of `nmbm_try_reserve_blocks`, with `tries = nblocks - min_count + 1`. -/
def tryReserveLoop (ni : Instance) (ba : ℕ) (limit nblocks : ℤ) : ℕ → Option ℕ
  | 0 => none
  | tries + 1 =>
      match nmbmBlockWalk ni true ba nblocks limit with
      | some nba => some nba
      | none => tryReserveLoop ni ba limit (nblocks - 1) tries

def nmbmTryReserveBlocks (ni : Instance) (ba : ℕ) (count minCount limit : ℤ) : Option ℕ :=
  tryReserveLoop ni ba limit count (count - minCount + 1).toNat

/-- The block above which no table may start so that it still fits below
`mapping_blocks_top_ba`. -/
def tableStartLimit (ni : Instance) : ℕ :=
  subU32 ni.mappingBlocksTopBa (size2blk ni ni.infoTableSize)

/-- Where a table may be placed after `ba`, leaving spare blocks if possible. -/
def reserveTableBlocks (ni : Instance) (ba : ℕ) : Option ℕ :=
  nmbmTryReserveBlocks ni ba ni.infoTableSpareBlocks 0 (tableStartLimit ni)

/-- The end of `nmbm_rebuild_info_table`, after the main table has been
written. -/
def rebuildBackupTable (mainTableEndBa : ℕ) : Driver Bool := do
  let ni ← getNi
  match reserveTableBlocks ni mainTableEndBa with
  | none => return true
  | some nextStartBa =>
      match ← nmbmWriteInfoTable nextStartBa ni.mappingBlocksTopBa with
      | none => return true
      | some place =>
          modifyNi (·.setBackupTable place.startBa |>.setMappingBlocks place.endBa)
          nmbmEraseRange mainTableEndBa place.startBa
          return true

/-- The part of `nmbm_rebuild_info_table` after both tables have been given
up. -/
def rebuildMainTable : Driver Bool := do
  let ni ← getNi
  match ← nmbmWriteInfoTable ni.mgmtStartBa ni.mappingBlocksTopBa with
  | none =>
      modifyNi Instance.setProtected
      return false
  | some mainPlace =>
      modifyNi (·.setMainTable mainPlace.startBa |>.setMappingBlocks mainPlace.endBa)
      nmbmMarkTablesClean
      rebuildBackupTable mainPlace.endBa

def nmbmRebuildInfoTable : Driver Bool := do
  modifyNi Instance.dropTables
  rebuildMainTable

/-- Tries to write a table at `ba`, `ba - 1`, .. down to `ba + 1 - tries`. -/
def writeTableDownwards (ba : ℕ) : ℕ → Driver (Option Placement)
  | 0 => pure none
  | tries + 1 => do
      let ni ← getNi
      match ← nmbmWriteInfoTable ba ni.mappingBlocksTopBa with
      | some place => return some place
      | none => writeTableDownwards (ba - 1) tries

/-- The end of `nmbm_rescue_single_info_table`, when there is no room before
the table that is left. -/
def rescueBehind : Driver Bool := do
  let ni ← getNi
  match reserveTableBlocks ni ni.mappingBlocksBa with
  | none => return false
  | some writeBa =>
      match ← writeTableDownwards writeBa (writeBa + 1 - ni.mappingBlocksBa) with
      | none => return false
      | some place =>
          nmbmEraseRange ni.mappingBlocksBa place.startBa
          modifyNi (·.setBackupTable place.startBa |>.setMappingBlocks place.endBa)
          nmbmMarkTablesClean
          return true

def nmbmRescueSingleInfoTable : Driver Bool := do
  let ni ← getNi
  match ← nmbmWriteInfoTable ni.mgmtStartBa ni.mainTableBa with
  | some place =>
      modifyNi fun ni => (ni.setBackupTable ni.mainTableBa).setMainTable place.startBa
      nmbmMarkTablesClean
      let ni ← getNi
      nmbmEraseRange place.endBa ni.backupTableBa
      return true
  | none => rescueBehind

def nmbmUpdateSingleInfoTable (updateMainTable : Bool) : Driver Bool := do
  let ni ← getNi
  let writeStartBa := if updateMainTable then ni.mainTableBa else ni.backupTableBa
  let writeLimit := if updateMainTable then ni.backupTableBa else ni.mappingBlocksTopBa
  match ← nmbmWriteInfoTable writeStartBa writeLimit with
  | some place =>
      modifyNi fun ni =>
        if updateMainTable then ni.setMainTable place.startBa
        else (ni.setBackupTable place.startBa).setMappingBlocks place.endBa
      nmbmMarkTablesClean
      return true
  | none =>
      if updateMainTable then
        modifyNi Instance.promoteBackupTable
        nmbmRescueSingleInfoTable
      else
        modifyNi Instance.dropBackupTable
        return false

/-- The end of `nmbm_rescue_main_info_table`, for a main table that has been
written over the temporary one. -/
def writeNewBackupTable (mainTableEndBa : ℕ) : Driver Bool := do
  modifyNi (·.setMappingBlocks mainTableEndBa)
  let ni ← getNi
  match reserveTableBlocks ni mainTableEndBa with
  | none =>
      modifyNi (·.setBackupTable 0)
      return true
  | some writeBa =>
      match ← writeTableDownwards writeBa (writeBa + 1 - mainTableEndBa) with
      | none =>
          modifyNi (·.setBackupTable 0)
          return true
      | some place =>
          modifyNi (·.setBackupTable place.startBa |>.setMappingBlocks place.endBa)
          nmbmEraseRange mainTableEndBa place.startBa
          return true

/-- The part of `nmbm_rescue_main_info_table` after the temporary table has
been written. -/
def writeMainBelow (tmp : Placement) : Driver Bool := do
  modifyNi (·.setMappingBlocks tmp.endBa)
  let ni ← getNi
  match ← nmbmWriteInfoTable ni.mgmtStartBa tmp.startBa with
  | none =>
      modifyNi (·.setMainTable tmp.startBa |>.setBackupTable 0)
      nmbmMarkTablesClean
      return true
  | some place =>
      modifyNi (·.setMainTable place.startBa)
      nmbmMarkTablesClean
      if place.endBa ≤ tmp.startBa then
        modifyNi (·.setBackupTable tmp.startBa)
        return true
      else
        writeNewBackupTable place.endBa

def nmbmRescueMainInfoTable : Driver Bool := do
  let ni ← getNi
  match reserveTableBlocks ni ni.mappingBlocksBa with
  | none =>
      modifyNi Instance.promoteBackupTable
      return true
  | some writeBa =>
      match ← writeTableDownwards writeBa (writeBa + 1 - ni.mappingBlocksBa) with
      | none =>
          modifyNi Instance.promoteBackupTable
          return true
      | some tmp => writeMainBelow tmp

/-- The part of `nmbm_update_info_table_once` from the label
`write_main_table` on. -/
def writeMainTable (mainTableLimit : ℕ) : Driver Bool := do
  let ni ← getNi
  if ni.mainTableBa = 0 then
    nmbmRebuildInfoTable
  else
    record .writeMainTable
    match ← nmbmWriteInfoTable ni.mainTableBa mainTableLimit with
    | none =>
        if ni.backupTableBa = 0 then
          nmbmRebuildInfoTable
        else
          nmbmRescueMainInfoTable
    | some place =>
        modifyNi (·.setMainTable place.startBa)
        when (ni.backupTableBa = 0) (modifyNi (·.setMappingBlocks place.endBa))
        nmbmMarkTablesClean
        return true

/-- The part of `nmbm_update_info_table_once` after the image has been
generated. -/
def writeBothTables : Driver Bool := do
  let ni ← getNi
  if ni.backupTableBa = 0 then
    writeMainTable ni.mappingBlocksTopBa
  else
    match ← nmbmWriteInfoTable ni.backupTableBa ni.mappingBlocksTopBa with
    | none =>
        modifyNi Instance.dropBackupTable
        writeMainTable ni.mappingBlocksTopBa
    | some place =>
        modifyNi (·.setBackupTable place.startBa |>.setMappingBlocks place.endBa)
        nmbmMarkTablesClean
        writeMainTable place.startBa

def nmbmUpdateInfoTableOnce (force : Bool) : Driver Bool := do
  let changed ← nmbmGenerateInfoTableCache
  if changed = false ∧ force = false then
    return true
  writeBothTables

/-- The loop of `nmbm_update_info_table`.  Every round after the first one is
caused by a block that has just been found bad, so `rounds` need not exceed
the number of states in the table. -/
def updateInfoTableLoop : ℕ → Driver Bool
  | 0 => pure false
  | rounds + 1 => do
      let ni ← getNi
      if ni.Changed then
        let success ← nmbmUpdateInfoTableOnce false
        if success = false then
          return false
        updateInfoTableLoop rounds
      else
        return true

def recordUpdate (success : Bool) : Driver Unit := fun w =>
  ((), { w with
    calls := w.calls ++ [.updateInfoTable success w.ni w.flash w.tableBlocks] })

def nmbmUpdateInfoTable : Driver Bool := do
  let ni ← getNi
  let success ← runIf (ni.protectedMode = false) true
    (updateInfoTableLoop (16 * ni.blockState.length + 2))
  recordUpdate success
  return success

/-- A spare block is handed out: the top of the spare blocks moves down by one. -/
def Instance.mapTo (ni : Instance) (lb pb : ℕ) : Instance :=
  { ni with
    blockMapping := ni.blockMapping.set lb pb
    mappingBlocksTopBa := subU32 ni.mappingBlocksTopBa 1
    blockMappingChanged := ni.blockMappingChanged + 1 }

def Instance.exhaust (ni : Instance) : Instance :=
  { ni with mappingBlocksTopBa := ni.mappingBlocksBa }

def nmbmMapBlock (lb : ℕ) : Driver Bool := do
  record .mapBlock
  let ni ← getNi
  if ni.mappingBlocksBa = ni.mappingBlocksTopBa then
    return false
  match nmbmBlockWalk ni false ni.mappingBlocksTopBa 0 ni.mappingBlocksBa with
  | none =>
      let _ ← nmbmUpdateInfoTable
      modifyNi Instance.exhaust
      return false
  | some pb =>
      modifyNi (·.mapTo lb pb)
      return true

end Nwa50ax.Nmbm
