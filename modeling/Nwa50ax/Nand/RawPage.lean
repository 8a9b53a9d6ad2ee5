import Nwa50ax.Lib.Store

/-!
# Raw pages of the MT7621 NAND driver

In the raw layout of a page the data, the FDM bytes and the ECC bytes of one
sector stand together; `nfc_write_page_raw` and `nfc_read_page_raw` copy between
it and the formatted layout of the caller's buffers.
-/

namespace Nwa50ax.Nand

open ByteBuffer ByteStore

def fdmSize : ℕ := 8

def oobFdmPtr (i : ℕ) : ℕ := i * fdmSize

structure Geometry where
  steps : ℕ
  eccSize : ℕ
  sparePerSector : ℕ
  oobsize : ℕ
  fdm_lt_spare : fdmSize < sparePerSector
  spare_le_oobsize : steps * sparePerSector ≤ oobsize

namespace Geometry

variable (g : Geometry)

def writesize : ℕ := g.steps * g.eccSize

def oobsizeAvail : ℕ := g.steps * g.sparePerSector

def eccBytes : ℕ := g.sparePerSector - fdmSize

def oobEccPtr (i : ℕ) : ℕ := g.steps * fdmSize + i * g.eccBytes

def pageDataPtr (i : ℕ) : ℕ := i * g.eccSize

def rawPageFdmPtr (i : ℕ) : ℕ := i * g.sparePerSector + (i + 1) * g.eccSize

def rawPageEccPtr (i : ℕ) : ℕ := g.rawPageFdmPtr i + fdmSize

def rawPageDataPtr (i : ℕ) : ℕ := i * (g.eccSize + g.sparePerSector)

end Geometry

/-! ## The data register -/

/-- An access of the data register: a byte, or a word with its least significant
byte first. -/
inductive Pio
  | byte (val : UInt8)
  | word (val : ℕ)

def Pio.bytes : Pio → List UInt8
  | .byte val => [val]
  | .word val => toLE 4 val

/-- `nfc_write_buf`: what is written to the data register. -/
def nfcWriteBuf (addr : ℕ) (buf : List UInt8) : List Pio :=
  if addr % 4 ≠ 0 ∨ buf.length % 4 ≠ 0 then buf.map .byte
  else (toWords32 (buf.length / 4) buf).map .word

/-- `nfc_read_buf` of `len` bytes from a chip that sends `stream`. -/
def nfcReadBuf (addr len : ℕ) (stream : List UInt8) : List UInt8 :=
  if addr % 4 ≠ 0 ∨ len % 4 ≠ 0 then stream.take len
  else (toWords32 (len / 4) stream).flatMap (toLE 4)

/-! ## Pages -/

structure Nfc where
  cacheAddr : ℕ
  pageCache : ℕ → UInt8
  page : ℕ → UInt8

def programPage (page : ℕ → UInt8) (bytes : List UInt8) (i : ℕ) : UInt8 :=
  match bytes[i]? with
  | some b => page i &&& b
  | none => page i

/-- The page cache that `nfc_write_page_raw` fills. -/
def fillCache (g : Geometry) (cache : ℕ → UInt8) (buf : Option (ℕ → UInt8)) (oob : ℕ → UInt8) :
    ℕ → UInt8 :=
  let cache := blit cache 0 (List.replicate (g.writesize + g.oobsize) 0xff)
  let cache := loop (fun i cache =>
    blit cache (g.rawPageFdmPtr i) (region oob (oobFdmPtr i) fdmSize)) g.steps cache
  match buf with
  | none => cache
  | some buf => loop (fun i cache =>
      blit cache (g.rawPageDataPtr i) (region buf (g.pageDataPtr i) g.eccSize)) g.steps cache

/-- `nfc_write_page_raw`. -/
def nfcWritePageRaw (g : Geometry) (nfc : Nfc) (buf : Option (ℕ → UInt8)) (oob : ℕ → UInt8) :
    Nfc :=
  let cache := fillCache g nfc.pageCache buf oob
  let written := nfcWriteBuf nfc.cacheAddr (region cache 0 (g.writesize + g.oobsizeAvail))
  { nfc with pageCache := cache, page := programPage nfc.page (written.flatMap Pio.bytes) }

structure RawRead where
  nfc : Nfc
  buf : Option (ℕ → UInt8)
  oob : ℕ → UInt8

def nfcReadPageRaw (g : Geometry) (nfc : Nfc) (buf : Option (ℕ → UInt8)) (oob : ℕ → UInt8) :
    RawRead :=
  let len := g.writesize + g.oobsizeAvail
  let cache := blit nfc.pageCache 0 (nfcReadBuf nfc.cacheAddr len (region nfc.page 0 len))
  { nfc := { nfc with pageCache := cache }
    oob := loop (fun i oob =>
      blit (blit oob (oobFdmPtr i) (region cache (g.rawPageFdmPtr i) fdmSize))
        (g.oobEccPtr i) (region cache (g.rawPageEccPtr i) g.eccBytes)) g.steps oob
    buf := buf.map (loop (fun i buf =>
      blit buf (g.pageDataPtr i) (region cache (g.rawPageDataPtr i) g.eccSize)) g.steps) }

/-! ## The bus -/

theorem toLE_fromLE (bytes : List UInt8) : toLE bytes.length (fromLE bytes) = bytes := by
  induction bytes with
  | nil => rfl
  | cons byte bytes ih =>
      have hlt := byte.toNat_lt
      have hbyte : UInt8.ofNat (byte.toNat + 256 * fromLE bytes) = byte := by
        apply UInt8.toNat_inj.mp
        rw [UInt8.toNat_ofNat']
        omega
      have hrest : (byte.toNat + 256 * fromLE bytes) / 256 = fromLE bytes := by omega
      rw [List.length_cons, toLE, fromLE, hbyte, hrest, ih]

theorem flatMap_toWords32 {n : ℕ} {bytes : List UInt8} (h : bytes.length = 4 * n) :
    (toWords32 n bytes).flatMap (toLE 4) = bytes := by
  induction n generalizing bytes with
  | zero => rw [List.length_eq_zero_iff.mp h]; rfl
  | succ n ih =>
      have htake : (bytes.take 4).length = 4 := by
        rw [List.length_take]
        omega
      have hword := toLE_fromLE (bytes.take 4)
      rw [htake] at hword
      rw [toWords32, List.flatMap_cons, hword, ih (by rw [List.length_drop]; omega),
        List.take_append_drop]

theorem nfcWriteBuf_bytes (addr : ℕ) (buf : List UInt8) :
    (nfcWriteBuf addr buf).flatMap Pio.bytes = buf := by
  unfold nfcWriteBuf
  split
  case isTrue =>
      rw [List.flatMap_map]
      exact List.flatMap_singleton' buf
  case isFalse hwords =>
      rw [List.flatMap_map]
      exact flatMap_toWords32 (by omega)

theorem nfcReadBuf_bytes (addr : ℕ) {len : ℕ} {stream : List UInt8} (h : stream.length = len) :
    nfcReadBuf addr len stream = stream := by
  unfold nfcReadBuf
  split
  case isTrue => exact List.take_of_length_le h.le
  case isFalse hwords => exact flatMap_toWords32 (by omega)

theorem region_programPage {page store : ℕ → UInt8} {len pos count : ℕ}
    (herased : ∀ i, i < len → page i = 0xff) (h : pos + count ≤ len) :
    region (programPage page (region store 0 len)) pos count = region store pos count := by
  apply region_congr
  intro i hpos hi
  have hlt : i < len := by omega
  rw [programPage, getElem?_region _ _ hlt, Nat.zero_add, herased i hlt]
  exact UInt8.toBitVec_inj.mp (BitVec.allOnes_and ..)

/-! ## Places -/

section Places

variable {g : Geometry} {i j : ℕ}

theorem mul_add_le_of_lt (k : ℕ) (h : i < j) : i * k + k ≤ j * k := by
  rw [← Nat.succ_mul]
  exact Nat.mul_le_mul_right k h

theorem rawPageDataPtr_disjoint (i j : ℕ) :
    g.rawPageDataPtr j + g.eccSize ≤ g.rawPageFdmPtr i ∨
      g.rawPageFdmPtr i + g.sparePerSector ≤ g.rawPageDataPtr j := by
  unfold Geometry.rawPageDataPtr Geometry.rawPageFdmPtr
  rw [Nat.mul_add, Nat.succ_mul]
  rcases Nat.lt_or_ge i j with hlt | hge
  · right
    have hspare := mul_add_le_of_lt g.sparePerSector hlt
    have hdata := mul_add_le_of_lt g.eccSize hlt
    omega
  · left
    have hspare := Nat.mul_le_mul_right g.sparePerSector hge
    have hdata := Nat.mul_le_mul_right g.eccSize hge
    omega

theorem rawPageDataPtr_lt (h : i < j) :
    g.rawPageDataPtr i + g.eccSize ≤ g.rawPageDataPtr j := by
  have hsector := mul_add_le_of_lt (g.eccSize + g.sparePerSector) h
  unfold Geometry.rawPageDataPtr
  omega

theorem rawPageFdmPtr_lt (h : i < j) :
    g.rawPageFdmPtr i + g.sparePerSector ≤ g.rawPageFdmPtr j := by
  unfold Geometry.rawPageFdmPtr
  rw [Nat.succ_mul, Nat.succ_mul]
  have hspare := mul_add_le_of_lt g.sparePerSector h
  have hdata := mul_add_le_of_lt g.eccSize h
  omega

theorem rawPage_inside (h : i < g.steps) :
    g.rawPageFdmPtr i + g.sparePerSector ≤ g.writesize + g.oobsizeAvail ∧
      g.rawPageDataPtr i + g.eccSize ≤ g.writesize + g.oobsizeAvail := by
  unfold Geometry.rawPageFdmPtr Geometry.rawPageDataPtr Geometry.writesize Geometry.oobsizeAvail
  rw [Nat.mul_add, Nat.succ_mul]
  have hspare := mul_add_le_of_lt g.sparePerSector h
  have hdata := mul_add_le_of_lt g.eccSize h
  omega

theorem oobFdmPtr_lt (h : i < j) : oobFdmPtr i + fdmSize ≤ oobFdmPtr j :=
  mul_add_le_of_lt fdmSize h

theorem oobEccPtr_lt (h : i < j) : g.oobEccPtr i + g.eccBytes ≤ g.oobEccPtr j := by
  have hecc := mul_add_le_of_lt g.eccBytes h
  unfold Geometry.oobEccPtr
  omega

theorem oobFdmPtr_le_oobEccPtr (h : i < g.steps) (j : ℕ) :
    oobFdmPtr i + fdmSize ≤ g.oobEccPtr j := by
  have hfdm := mul_add_le_of_lt fdmSize h
  unfold oobFdmPtr Geometry.oobEccPtr
  omega

theorem eccBytes_add : fdmSize + g.eccBytes = g.sparePerSector := by
  have hlt := g.fdm_lt_spare
  unfold Geometry.eccBytes
  omega

end Places

/-! ## What is written -/

section Write

variable {g : Geometry} {i : ℕ} (cache buf oob : ℕ → UInt8)

theorem fillCache_data (hi : i < g.steps) :
    region (fillCache g cache (some buf) oob) (g.rawPageDataPtr i) g.eccSize =
      region buf (g.pageDataPtr i) g.eccSize := by
  apply region_loop_set hi
  · intro cache
    exact region_blit_region ..
  · intro j hij _ cache
    exact region_blit_disjoint (.inl (rawPageDataPtr_lt hij))

theorem fillCache_spare {pos len : ℕ} (hpos : g.rawPageFdmPtr i ≤ pos)
    (hlen : pos + len ≤ g.rawPageFdmPtr i + g.sparePerSector) :
    region (fillCache g cache (some buf) oob) pos len =
      region (fillCache g cache none oob) pos len := by
  apply region_loop_keep
  intro j _ cache
  apply region_blit_disjoint
  rw [length_region]
  rcases rawPageDataPtr_disjoint (g := g) i j with hbefore | hbehind <;> omega

theorem fillCache_fdm (hi : i < g.steps) :
    region (fillCache g cache (some buf) oob) (g.rawPageFdmPtr i) fdmSize =
      region oob (oobFdmPtr i) fdmSize := by
  have hfdm := g.fdm_lt_spare
  rw [fillCache_spare cache buf oob le_rfl (by omega)]
  apply region_loop_set hi
  · intro cache
    exact region_blit_region ..
  · intro j hij _ cache
    have hlt := rawPageFdmPtr_lt (g := g) hij
    exact region_blit_disjoint (.inl (by omega))

theorem fillCache_ecc (hi : i < g.steps) :
    region (fillCache g cache (some buf) oob) (g.rawPageEccPtr i) g.eccBytes =
      List.replicate g.eccBytes 0xff := by
  have hspare := eccBytes_add (g := g)
  have hinside := (rawPage_inside hi).1
  have hroom := g.spare_le_oobsize
  unfold Geometry.rawPageEccPtr
  rw [fillCache_spare (i := i) cache buf oob (by omega) (by omega)]
  unfold fillCache
  dsimp only
  rw [region_loop_keep]
  · have hin : g.rawPageFdmPtr i + fdmSize + g.eccBytes ≤
        (List.replicate (g.writesize + g.oobsize) (0xff : UInt8)).length := by
      rw [List.length_replicate]
      unfold Geometry.oobsizeAvail at hinside
      omega
    have hpart : region (blit cache 0 _) (0 + _) _ = _ := region_blit_slice hin
    rw [Nat.zero_add] at hpart
    rw [hpart, slice, List.drop_replicate, List.take_replicate]
    rw [List.length_replicate] at hin
    congr 1
    omega
  · intro j _ cache
    apply region_blit_disjoint
    rw [length_region]
    rcases Nat.lt_trichotomy i j with hlt | rfl | hgt
    · have hnext := rawPageFdmPtr_lt (g := g) hlt
      omega
    · omega
    · have hnext := rawPageFdmPtr_lt (g := g) hgt
      omega

end Write

/-! ## What is read -/

section Read

variable {g : Geometry} {i : ℕ} (nfc : Nfc) (oob : ℕ → UInt8)

theorem read_fdm (buf : Option (ℕ → UInt8)) (hi : i < g.steps) :
    region (nfcReadPageRaw g nfc buf oob).oob (oobFdmPtr i) fdmSize =
      region (nfcReadPageRaw g nfc buf oob).nfc.pageCache (g.rawPageFdmPtr i) fdmSize := by
  apply region_loop_set hi
  · intro oob
    rw [region_blit_disjoint (.inl (oobFdmPtr_le_oobEccPtr hi i)), region_blit_region]
    rfl
  · intro j hij _ oob
    rw [region_blit_disjoint (.inl (oobFdmPtr_le_oobEccPtr hi j)),
      region_blit_disjoint (.inl (oobFdmPtr_lt hij))]

theorem read_ecc (buf : Option (ℕ → UInt8)) (hi : i < g.steps) :
    region (nfcReadPageRaw g nfc buf oob).oob (g.oobEccPtr i) g.eccBytes =
      region (nfcReadPageRaw g nfc buf oob).nfc.pageCache (g.rawPageEccPtr i) g.eccBytes := by
  apply region_loop_set hi
  · intro oob
    exact region_blit_region ..
  · intro j hij hj oob
    rw [region_blit_disjoint (.inl (oobEccPtr_lt hij)), region_blit_disjoint]
    right
    rw [length_region]
    exact oobFdmPtr_le_oobEccPtr hj i

theorem read_data (buf : ℕ → UInt8) :
    ∃ data, (nfcReadPageRaw g nfc (some buf) oob).buf = some data ∧
      ∀ i, i < g.steps →
        region data (g.pageDataPtr i) g.eccSize =
          region (nfcReadPageRaw g nfc (some buf) oob).nfc.pageCache (g.rawPageDataPtr i)
            g.eccSize := by
  refine ⟨_, rfl, fun i hi => ?_⟩
  apply region_loop_set hi
  · intro buf
    exact region_blit_region ..
  · intro j hij _ buf
    exact region_blit_disjoint (.inl (mul_add_le_of_lt g.eccSize hij))

/-- An erased page that has been written is read into the page cache as it has been
filled for writing. -/
theorem region_readCache {pos count : ℕ}
    (herased : ∀ i, i < g.writesize + g.oobsizeAvail → nfc.page i = 0xff)
    (hin : pos + count ≤ g.writesize + g.oobsizeAvail) (buf buf' : Option (ℕ → UInt8))
    (oob oob' : ℕ → UInt8) :
    region (nfcReadPageRaw g (nfcWritePageRaw g nfc buf oob) buf' oob').nfc.pageCache pos count =
      region (fillCache g nfc.pageCache buf oob) pos count := by
  unfold nfcReadPageRaw nfcWritePageRaw
  dsimp only
  rw [nfcWriteBuf_bytes, nfcReadBuf_bytes _ (length_region ..)]
  have hlength : pos + count ≤ (region (programPage nfc.page
      (region (fillCache g nfc.pageCache buf oob) 0 (g.writesize + g.oobsizeAvail))) 0
      (g.writesize + g.oobsizeAvail)).length := by
    rwa [length_region]
  have hpart : region (blit (fillCache g nfc.pageCache buf oob) 0 _) (0 + pos) count = _ :=
    region_blit_slice hlength
  rw [Nat.zero_add] at hpart
  rw [hpart, slice_region _ _ hin, Nat.zero_add, region_programPage herased hin]

end Read

/-- A raw page that is written to an erased page and read again has the same data
and the same FDM bytes.  It has the same ECC bytes if and only if all of these
have been 0xff. -/
theorem raw_page_round_trip (g : Geometry) (nfc : Nfc)
    (herased : ∀ i, i < g.writesize + g.oobsizeAvail → nfc.page i = 0xff)
    (buf oob buf' oob' : ℕ → UInt8) :
    let read := nfcReadPageRaw g (nfcWritePageRaw g nfc (some buf) oob) (some buf') oob'
    (∃ data, read.buf = some data ∧ region data 0 g.writesize = region buf 0 g.writesize) ∧
      (∀ i, i < g.steps →
        region read.oob (oobFdmPtr i) fdmSize = region oob (oobFdmPtr i) fdmSize) ∧
      ((∀ i, i < g.steps →
          region read.oob (g.oobEccPtr i) g.eccBytes = region oob (g.oobEccPtr i) g.eccBytes) ↔
        ∀ i, i < g.steps →
          region oob (g.oobEccPtr i) g.eccBytes = List.replicate g.eccBytes 0xff) := by
  have hspare := eccBytes_add (g := g)
  dsimp only
  refine ⟨?_, fun i hi => ?_, ?_⟩
  · obtain ⟨data, hbuf, hdata⟩ := read_data (nfcWritePageRaw g nfc (some buf) oob) oob' buf'
    refine ⟨data, hbuf, region_mul_congr fun i hi => ?_⟩
    have hinside := (rawPage_inside hi).2
    exact (hdata i hi).trans ((region_readCache nfc herased hinside _ _ _ _).trans
      (fillCache_data _ _ _ hi))
  · have hinside := (rawPage_inside hi).1
    rw [read_fdm _ _ _ hi, region_readCache nfc herased (by omega), fillCache_fdm _ _ _ hi]
  · have hecc : ∀ i, i < g.steps →
        region (nfcReadPageRaw g (nfcWritePageRaw g nfc (some buf) oob) (some buf') oob').oob
          (g.oobEccPtr i) g.eccBytes = List.replicate g.eccBytes 0xff := by
      intro i hi
      have hinside := (rawPage_inside hi).1
      have hin : g.rawPageEccPtr i + g.eccBytes ≤ g.writesize + g.oobsizeAvail := by
        unfold Geometry.rawPageEccPtr
        omega
      rw [read_ecc _ _ _ hi, region_readCache nfc herased hin, fillCache_ecc _ _ _ hi]
    constructor
    · intro hsame i hi
      rw [← hsame i hi, hecc i hi]
    · intro hblank i hi
      rw [hblank i hi, hecc i hi]

/-! ## A small page -/

def smallGeometry : Geometry where
  steps := 2
  eccSize := 4
  sparePerSector := 10
  oobsize := 20
  fdm_lt_spare := Nat.le.step Nat.le.refl
  spare_le_oobsize := Nat.le.refl

def erasedNfc : Nfc where
  cacheAddr := 0
  pageCache := fun _ => 0
  page := fun _ => 0xff

theorem raw_page_round_trip_small :
    let read := nfcReadPageRaw smallGeometry
      (nfcWritePageRaw smallGeometry erasedNfc (some fun i => UInt8.ofNat i) fun _ => 0x55)
      (some fun _ => 0) fun _ => 0
    region read.oob (oobFdmPtr 1) fdmSize = List.replicate 8 0x55 :=
  (raw_page_round_trip smallGeometry erasedNfc (fun _ _ => rfl) (fun i => UInt8.ofNat i)
    (fun _ => 0x55) (fun _ => 0) fun _ => 0).2.1 1 (by decide)

/-- ECC bytes that are given for a raw page are lost. -/
theorem raw_page_loses_ecc :
    let read := nfcReadPageRaw smallGeometry
      (nfcWritePageRaw smallGeometry erasedNfc (some fun i => UInt8.ofNat i) fun _ => 0x55)
      (some fun _ => 0) fun _ => 0
    region read.oob (smallGeometry.oobEccPtr 0) smallGeometry.eccBytes = [0xff, 0xff] := by
  decide

end Nwa50ax.Nand
