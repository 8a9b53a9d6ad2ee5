import Nwa50ax.Lib.Paging
import Nwa50ax.Nmbm.Content
import Nwa50ax.Nmbm.Mtd
import Nwa50ax.Nmbm.TableFormat
import Mathlib.Data.UInt

/-!
# The two ways to read

The logic bytes of a device are what the mapped blocks hold.  Reading a range
with `nmbm_read_range` and reading it page by page with `nmbm_mtd_read_data`
both deliver these bytes up to the first page that cannot be read.
-/

namespace Nwa50ax.Nmbm

open ByteBuffer StateProgram Paging

/-! ## Logic pages -/

def logicalPage (w : World) (addr : ℕ) : Page :=
  w.flash.pages (w.ni.blockMapping.getD (addr / w.ni.erasesize) (-1)).toNat
    (addr % w.ni.erasesize / w.ni.writesize)

def logicalByte (w : World) (addr : ℕ) : UInt8 :=
  (logicalPage w addr).data.getD (addr % w.ni.writesize) 0

/-- The logic bytes `[addr, addr + count)`. -/
def logicalBytes (w : World) (addr count : ℕ) : List UInt8 :=
  (List.range' addr count).map (logicalByte w)

/-- The pages that `[addr, addr + count)` touches have their full size. -/
def FullPages (w : World) (addr count : ℕ) : Prop :=
  ∀ a, addr ≤ a → a < addr + count → (logicalPage w a).data.length = w.ni.writesize

theorem FullPages.mono {w : World} {addr addr' count count' : ℕ} (h : FullPages w addr count)
    (hlo : addr ≤ addr') (hhi : addr' + count' ≤ addr + count) : FullPages w addr' count' :=
  fun a ha ha' => h a (by omega) (by omega)

theorem logicalBytes_add (w : World) (addr m n : ℕ) :
    logicalBytes w addr (m + n) = logicalBytes w addr m ++ logicalBytes w (addr + m) n := by
  unfold logicalBytes
  rw [← List.map_append, List.range'_append_1]

@[simp] theorem length_logicalBytes (w : World) (addr count : ℕ) :
    (logicalBytes w addr count).length = count := by
  simp [logicalBytes]

theorem logicalPage_same {w : World} (hsound : w.ni.lower.Sound) {addr i : ℕ}
    (hi : addr % w.ni.writesize + i < w.ni.writesize) :
    logicalPage w (addr + i) = logicalPage w addr := by
  obtain ⟨pages, hpages⟩ : w.ni.writesize ∣ w.ni.erasesize := hsound.writesize_dvd
  have hws : 0 < w.ni.writesize := hsound.writesize_pos
  have hquot : (addr + i) / w.ni.writesize = addr / w.ni.writesize := by
    rw [Nat.add_div hws, if_neg (by rw [Nat.mod_eq_of_lt (by omega : i < _)]; omega),
      Nat.div_eq_of_lt (by omega : i < w.ni.writesize)]
    rfl
  have hblock : (addr + i) / w.ni.erasesize = addr / w.ni.erasesize := by
    rw [hpages, ← Nat.div_div_eq_div_mul, ← Nat.div_div_eq_div_mul, hquot]
  have hpage : ∀ a, a % w.ni.erasesize / w.ni.writesize = a / w.ni.writesize % pages := by
    intro a
    rw [hpages, Nat.mod_mul_right_div_self]
  unfold logicalPage
  rw [hblock, hpage, hpage, hquot]

theorem logicalBytes_page {w : World} (hsound : w.ni.lower.Sound) {addr count : ℕ}
    (hcount : addr % w.ni.writesize + count ≤ w.ni.writesize)
    (hfull : FullPages w addr count) :
    logicalBytes w addr count =
      slice (logicalPage w addr).data (addr % w.ni.writesize) count := by
  cases count with
  | zero => simp [logicalBytes, slice]
  | succ count =>
      have hlen := hfull addr le_rfl (by omega)
      apply List.ext_getElem
      · simp [logicalBytes, slice, hlen]
        omega
      · intro i hi hi'
        have hlt : i < count + 1 := by simpa using hi
        have hmod : (addr + i) % w.ni.writesize = addr % w.ni.writesize + i := by
          rw [Nat.add_mod, Nat.mod_eq_of_lt (by omega : i < w.ni.writesize),
            Nat.mod_eq_of_lt (by omega)]
        simp only [logicalBytes, logicalByte, slice, List.getElem_map, List.getElem_range',
          Nat.one_mul, List.getElem_take, List.getElem_drop]
        rw [logicalPage_same hsound (by omega), hmod, List.getD_eq_getElem?_getD,
          List.getElem?_eq_getElem (by omega)]
        rfl

/-! ## Reading one page -/

/-- The worlds differ in nothing that the outcome of reading depends on. -/
structure SameChip (w w' : World) : Prop where
  core : w'.ni.core = w.ni.core
  flash : w'.flash = w.flash
  pattern : w'.pattern = w.pattern
  tick : w'.tick = w.tick

section SameChip

variable {w w' : World}

theorem SameChip.refl (w : World) : SameChip w w := ⟨rfl, rfl, rfl, rfl⟩

theorem SameChip.lower (h : SameChip w w') : w'.ni.lower = w.ni.lower :=
  (congrArg Instance.lower h.core :)

theorem SameChip.blockMapping (h : SameChip w w') : w'.ni.blockMapping = w.ni.blockMapping :=
  (congrArg Instance.blockMapping h.core :)

theorem SameChip.writesize (h : SameChip w w') : w'.ni.writesize = w.ni.writesize := by
  rw [Instance.writesize, h.lower]
  rfl

theorem tryTimes_lowerReadPage_same (h : SameChip w w') (addr extra : ℕ) :
    (tryTimes (lowerReadPage addr) extra w').1 = (tryTimes (lowerReadPage addr) extra w).1 ∧
      SameChip (tryTimes (lowerReadPage addr) extra w).2
        (tryTimes (lowerReadPage addr) extra w').2 := by
  have hread : ∀ {w w' : World}, SameChip w w' →
      (lowerReadPage addr w').1 = (lowerReadPage addr w).1 ∧
        SameChip (lowerReadPage addr w).2 (lowerReadPage addr w').2 := by
    intro w w' h
    have hblock := blockOf_congr h.lower addr
    have hpage := pageOf_congr h.lower addr
    refine ⟨?_, h.core, h.flash, h.pattern, congrArg (· + 1) h.tick⟩
    simp only [lowerReadPage]
    rw [hblock, hpage, h.flash, h.pattern, h.tick]
  induction extra generalizing w w' with
  | zero => exact hread h
  | succ extra ih =>
      obtain ⟨hfirst, hafter⟩ := hread h
      simp only [tryTimes, bind_run, ite_run, hfirst]
      split
      · exact ⟨rfl, hafter⟩
      · exact ih hafter

theorem getNi_bind_core {α : Type} {f : Instance → Driver α} (hf : ∀ ni, f ni.core = f ni)
    (h : w'.ni.core = w.ni.core) : (getNi >>= f) w' = f w.ni w' := by
  rw [getNi_bind_run, ← hf w'.ni, h, hf]

theorem nmbmReadLogicPage_same (h : SameChip w w') (addr : ℕ) :
    (nmbmReadLogicPage addr w').1 = (nmbmReadLogicPage addr w).1 ∧
      ((nmbmReadLogicPage addr w).1.1 = 0 →
        SameChip (nmbmReadLogicPage addr w).2 (nmbmReadLogicPage addr w').2) := by
  unfold nmbmReadLogicPage
  rw [getNi_bind_core (fun _ => rfl) h.core, getNi_bind_run]
  simp only [ite_run]
  split
  · exact ⟨rfl, fun _ => h⟩
  split
  · exact ⟨rfl, fun _ => h⟩
  obtain ⟨hread, hafter⟩ := tryTimes_lowerReadPage_same h (ba2addr w.ni
    (w.ni.blockMapping.getD (addr2ba w.ni addr) (-1)).toNat + w.ni.inBlockOffset addr)
    (nmbmTryCount - 1)
  simp only [nmbmReadPhysPage, bind_run, ite_run, hread]
  split
  · exact ⟨rfl, fun _ => hafter⟩
  split
  · exact ⟨rfl, fun _ => hafter⟩
  · refine ⟨rfl, fun hret => ?_⟩
    cases hret

end SameChip

section Logic

variable {ni : Instance} {addr : ℕ}

theorem LowerDevice.Sound.addr2ba_eq (hsound : ni.lower.Sound)
    (haddr : addr / ni.erasesize < 2 ^ 32) : addr2ba ni addr = addr / ni.erasesize := by
  unfold addr2ba Instance.erasesizeShift u32
  rw [Nat.shiftRight_eq_div_pow]
  unfold Instance.erasesize at haddr ⊢
  rw [← hsound.erasesize_eq]
  exact Nat.mod_eq_of_lt haddr

theorem LowerDevice.Sound.physical_page (hsound : ni.lower.Sound) (pb addr : ℕ) :
    blockOf ni (ba2addr ni pb + ni.inBlockOffset addr) = pb ∧
      pageOf ni (ba2addr ni pb + ni.inBlockOffset addr) =
        addr % ni.erasesize / ni.writesize := by
  have hoff : addr % ni.erasesize < ni.erasesize := Nat.mod_lt _ hsound.erasesize_pos
  refine ⟨hsound.blockOf_ba2addr pb hoff, ?_⟩
  unfold pageOf Instance.inBlockOffset
  rw [hsound.ba2addr_eq, Nat.mul_add_mod', Nat.mod_eq_of_lt hoff]

end Logic

theorem nmbmReadLogicPage_success {w : World} (hsound : w.ni.lower.Sound) {addr : ℕ}
    (haddr : addr / w.ni.erasesize < 2 ^ 32) (hret : (nmbmReadLogicPage addr w).1.1 = 0) :
    (nmbmReadLogicPage addr w).1.2 = logicalPage w addr ∧
      ReadStep w (nmbmReadLogicPage addr w).2 := by
  unfold nmbmReadLogicPage at hret ⊢
  simp only [getNi_bind_run, ite_run, hsound.addr2ba_eq haddr] at hret ⊢
  split at hret
  · cases hret
  rename_i hentry
  rw [if_neg hentry]
  split at hret
  · cases hret
  rename_i hstate
  rw [if_neg hstate]
  have hresult := nmbmReadPhysPage_result (ba2addr w.ni
    (w.ni.blockMapping.getD (addr / w.ni.erasesize) (-1)).toNat + w.ni.inBlockOffset addr) w
  have hreads := nmbmReadPhysPage_reads (ba2addr w.ni
    (w.ni.blockMapping.getD (addr / w.ni.erasesize) (-1)).toNat + w.ni.inBlockOffset addr) w
  obtain ⟨hblock, hpage⟩ := hsound.physical_page
    (w.ni.blockMapping.getD (addr / w.ni.erasesize) (-1)).toNat addr
  rw [hblock, hpage] at hresult
  simp only [bind_run, ite_run] at hret ⊢
  split at hret
  · rename_i hzero
    rw [if_pos hzero]
    exact ⟨hresult.2 hzero, hreads⟩
  rename_i hzero
  rw [if_neg hzero]
  split at hret
  · cases hret
  · cases hret

/-! ## Reading page after page -/

/-- Reads `count` pages from `addr` on, and returns how many of them come before
the first one that cannot be read. -/
def readPages (addr writesize : ℕ) : ℕ → Driver ℕ
  | 0 => pure 0
  | count + 1 => do
      let result ← nmbmReadSinglePage (UInt64.ofNat addr)
      if result.1 ≠ 0 then
        return 0
      let rest ← readPages (addr + writesize) writesize count
      return rest + 1

structure Readable (w : World) (addr : ℕ) : Prop where
  unprotected : w.ni.protectedMode = false
  inside : addr < w.ni.dataBlockCount * w.ni.erasesize
  count_lt : w.ni.dataBlockCount < 2 ^ 32
  sound : w.ni.lower.Sound

section Readable

variable {w w' : World} {addr : ℕ}

theorem Readable.lt (h : Readable w addr) : addr < 2 ^ 64 := by
  have hsize : w.ni.erasesize < 2 ^ 32 := w.ni.lower.erasesize.toNat_lt
  calc addr < w.ni.dataBlockCount * w.ni.erasesize := h.inside
    _ ≤ 2 ^ 32 * 2 ^ 32 := Nat.mul_le_mul h.count_lt.le hsize.le
    _ = 2 ^ 64 := by decide

theorem Readable.block_lt (h : Readable w addr) : addr / w.ni.erasesize < 2 ^ 32 :=
  (Nat.div_lt_of_lt_mul (Nat.mul_comm _ _ ▸ h.inside)).trans h.count_lt

theorem Readable.readSinglePage (h : Readable w addr) :
    nmbmReadSinglePage (UInt64.ofNat addr) w = nmbmReadLogicPage addr w := by
  have haddr : (UInt64.ofNat addr).toNat = addr := by
    rw [UInt64.toNat_ofNat', Nat.mod_eq_of_lt h.lt]
  have hbound : ¬addr ≥ ba2addr w.ni w.ni.dataBlockCount := by
    rw [h.sound.ba2addr_eq]
    exact not_le.mpr h.inside
  rw [nmbmReadSinglePage, getNi_bind_run, ite_run, if_neg (by simp [h.unprotected]), haddr,
    ite_run, if_neg hbound]

theorem Readable.of_core (h : Readable w addr) (hcore : w'.ni.core = w.ni.core) {addr' : ℕ}
    (hinside : addr' < w.ni.dataBlockCount * w.ni.erasesize) : Readable w' addr' := by
  have hlower : w'.ni.lower = w.ni.lower := (congrArg Instance.lower hcore :)
  have hcount : w'.ni.dataBlockCount = w.ni.dataBlockCount :=
    (congrArg Instance.dataBlockCount hcore :)
  refine ⟨(congrArg Instance.protectedMode hcore :).trans h.unprotected, ?_, hcount ▸ h.count_lt,
    hlower ▸ h.sound⟩
  rw [hcount, Instance.erasesize, hlower]
  exact hinside

end Readable

theorem ReadStep.logicalPage {w w' : World} (h : ReadStep w w') (addr : ℕ) :
    logicalPage w' addr = logicalPage w addr := by
  have hlower : w'.ni.lower = w.ni.lower := (congrArg Instance.lower h.core :)
  have hmapping : w'.ni.blockMapping = w.ni.blockMapping :=
    (congrArg Instance.blockMapping h.core :)
  unfold Nmbm.logicalPage Instance.erasesize Instance.writesize
  rw [hlower, hmapping, h.flash]

theorem ReadStep.logicalBytes {w w' : World} (h : ReadStep w w') (addr count : ℕ) :
    logicalBytes w' addr count = logicalBytes w addr count := by
  have hlower : w'.ni.lower = w.ni.lower := (congrArg Instance.lower h.core :)
  apply List.map_congr_left
  intro a _
  rw [logicalByte, logicalByte, h.logicalPage, Instance.writesize, hlower]
  rfl

theorem ReadStep.fullPages {w w' : World} (h : ReadStep w w') {addr count : ℕ}
    (hfull : FullPages w addr count) : FullPages w' addr count := by
  have hlower : w'.ni.lower = w.ni.lower := (congrArg Instance.lower h.core :)
  intro a ha ha'
  rw [h.logicalPage, Instance.writesize, hlower]
  exact hfull a ha ha'

/-- The bytes of the first `count` pages that belong to a request of `len` bytes
from column `col` on. -/
def bytesBefore (writesize col len count : ℕ) : ℕ := min len (count * writesize - col)

theorem bytesBefore_succ {writesize col len count : ℕ} (hcol : col ≤ writesize) :
    bytesBefore writesize col len (count + 1) =
      min (writesize - col) len +
        bytesBefore writesize 0 (len - min (writesize - col) len) count := by
  unfold bytesBefore
  rw [Nat.succ_mul]
  omega

theorem readPages_succ {w w' : World} {addr col len : ℕ} (h : Readable w addr)
    (hsame : SameChip w w') (haligned : addr % w.ni.writesize = 0) (hcol : col < w.ni.writesize)
    (hfull : FullPages w (addr + col) len) :
    (nmbmReadLogicPage addr w').1 = (nmbmReadLogicPage addr w).1 ∧
      ((nmbmReadLogicPage addr w).1.1 ≠ 0 →
        ∀ count, (readPages addr w.ni.writesize (count + 1) w).1 = 0) ∧
      ((nmbmReadLogicPage addr w).1.1 = 0 →
        (∀ count, (readPages addr w.ni.writesize (count + 1) w).1 =
          (readPages (addr + w.ni.writesize) w.ni.writesize count
            (nmbmReadLogicPage addr w).2).1 + 1) ∧
        slice (nmbmReadLogicPage addr w).1.2.data col (min (w.ni.writesize - col) len) =
          logicalBytes w (addr + col) (min (w.ni.writesize - col) len) ∧
        ReadStep w (nmbmReadLogicPage addr w).2 ∧
        SameChip (nmbmReadLogicPage addr w).2 (nmbmReadLogicPage addr w').2) := by
  obtain ⟨hvalue, hafter⟩ := nmbmReadLogicPage_same hsame addr
  refine ⟨hvalue, fun hfail count => ?_, fun hret => ⟨fun count => ?_, ?_, ?_, hafter hret⟩⟩
  · rw [readPages, bind_run, h.readSinglePage, ite_run, if_pos hfail, pure_run]
  · rw [readPages, bind_run, h.readSinglePage, ite_run, if_neg (not_not.mpr hret), bind_run,
      pure_run]
  · obtain ⟨hpage, -⟩ := nmbmReadLogicPage_success h.sound h.block_lt hret
    have hmod : (addr + col) % w.ni.writesize = col := by
      rw [Nat.add_mod, haligned, Nat.zero_add, Nat.mod_mod, Nat.mod_eq_of_lt hcol]
    rw [hpage, logicalBytes_page h.sound (by rw [hmod]; omega)
      (hfull.mono le_rfl (by omega)), hmod, logicalPage_same h.sound (by omega)]
  · exact (nmbmReadLogicPage_success h.sound h.block_lt hret).2

/-- The request `[addr, addr + len)` lies inside the data area of a device that
can be read. -/
structure ReadRequest (w : World) (addr len : ℕ) : Prop where
  unprotected : w.ni.protectedMode = false
  inside : addr + len ≤ w.ni.dataBlockCount * w.ni.erasesize
  count_lt : w.ni.dataBlockCount < 2 ^ 32
  sound : w.ni.lower.Sound
  full : FullPages w addr len

theorem ReadRequest.readable {w : World} {addr col len : ℕ} (h : ReadRequest w (addr + col) len)
    (hlen : 0 < len) : Readable w addr :=
  ⟨h.unprotected, by have := h.inside; omega, h.count_lt, h.sound⟩

theorem ReadRequest.rest {w w₁ : World} {addr len : ℕ} (h : ReadRequest w addr len)
    (hstep : ReadStep w w₁) {addr' len' : ℕ} (hlo : addr ≤ addr')
    (hhi : addr' + len' ≤ addr + len) : ReadRequest w₁ addr' len' := by
  have hlower : w₁.ni.lower = w.ni.lower := (congrArg Instance.lower hstep.core :)
  have hcount : w₁.ni.dataBlockCount = w.ni.dataBlockCount :=
    (congrArg Instance.dataBlockCount hstep.core :)
  refine ⟨(congrArg Instance.protectedMode hstep.core :).trans h.unprotected, ?_,
    hcount ▸ h.count_lt, hlower ▸ h.sound, hstep.fullPages (h.full.mono hlo hhi)⟩
  rw [hcount, Instance.erasesize, hlower]
  exact hhi.trans h.inside

/-! ## `nmbm_read_range` -/

@[simp] theorem readRangeLoop_zero (off fuel : ℕ) (w : World) :
    readRangeLoop off fuel 0 w = ((0, []), w) := by
  cases fuel <;> simp [readRangeLoop]

theorem SameChip.pageCache {w w' : World} (h : SameChip w w') (c : Prop) [Decidable c]
    (f : Instance → Instance) (hf : ∀ ni, (f ni).core = ni.core) :
    SameChip w (StateProgram.when c (modifyNi f) w').2 := by
  rw [when_run]
  split
  · exact ⟨(hf _).trans h.core, h.flash, h.pattern, h.tick⟩
  · exact h

/-- Induction over the pages.  `w` is the world of the page by page reading that
defines how many pages can be read; the loop itself runs on an equal chip. -/
theorem readRangeLoop_result {fuel addr col len : ℕ} {w w' : World} (hsame : SameChip w w')
    (h : ReadRequest w (addr + col) len) (haligned : addr % w.ni.writesize = 0)
    (hcol : col < w.ni.writesize) (hfuel : len ≤ fuel) :
    (readRangeLoop (addr + col) fuel len w').1.2 = logicalBytes w (addr + col)
        (bytesBefore w.ni.writesize col len (readPages addr w.ni.writesize
          (pageCount w.ni.writesize col len) w).1) ∧
      ((readRangeLoop (addr + col) fuel len w').1.1 = 0 ↔
        (readPages addr w.ni.writesize (pageCount w.ni.writesize col len) w).1 =
          pageCount w.ni.writesize col len) := by
  induction fuel generalizing addr col len w w' with
  | zero =>
      obtain rfl : len = 0 := by omega
      simp [bytesBefore, logicalBytes, readPages]
  | succ fuel ih =>
      rcases Nat.eq_zero_or_pos len with rfl | hlen
      · simp [bytesBefore, logicalBytes, readPages]
      have hmod : (addr + col) % w.ni.writesize = col := by
        rw [Nat.add_mod, haligned, Nat.zero_add, Nat.mod_mod, Nat.mod_eq_of_lt hcol]
      obtain ⟨hvalue, hfail, hok⟩ :=
        readPages_succ (h.readable hlen) hsame haligned hcol h.full
      rw [readRangeLoop, ite_run, if_neg hlen.ne', getNi_bind_run, hsame.writesize, hmod,
        Nat.add_sub_cancel, bind_run, bind_run, hvalue, ite_run, pageCount_succ hlen hcol]
      by_cases hret : (nmbmReadLogicPage addr w).1.1 ≠ 0
      · rw [if_pos hret, hfail hret, pure_run]
        refine ⟨?_, ?_⟩
        · simp [bytesBefore, logicalBytes]
        · simpa using hret
      · obtain ⟨hnext, hslice, hstep, hsame₁⟩ := hok (not_not.mp hret)
        have hws : (nmbmReadLogicPage addr w).2.ni.writesize = w.ni.writesize :=
          (congrArg Instance.writesize hstep.core :)
        rw [if_neg hret, hnext, bytesBefore_succ hcol.le, bind_run, pure_run]
        generalize (nmbmReadLogicPage addr w).2 = w₁ at *
        -- the rest of the request starts with the next page, unless it is empty
        have hrest : ∀ w₂, SameChip w₁ w₂ → (readRangeLoop (addr + col + min (w.ni.writesize - col) len) fuel
              (len - min (w.ni.writesize - col) len) w₂).1.2 =
            logicalBytes w (addr + col + min (w.ni.writesize - col) len)
              (bytesBefore w.ni.writesize 0 (len - min (w.ni.writesize - col) len)
                (readPages (addr + w.ni.writesize) w.ni.writesize (pageCount w.ni.writesize 0
                  (len - (w.ni.writesize - col))) w₁).1) ∧
            ((readRangeLoop (addr + col + min (w.ni.writesize - col) len) fuel
                (len - min (w.ni.writesize - col) len) w₂).1.1 = 0 ↔
              (readPages (addr + w.ni.writesize) w.ni.writesize (pageCount w.ni.writesize 0
                  (len - (w.ni.writesize - col))) w₁).1 =
                pageCount w.ni.writesize 0 (len - (w.ni.writesize - col))) := by
          intro w₂ hsame₂
          rcases Nat.le_total len (w.ni.writesize - col) with hshort | hlong
          · rw [Nat.min_eq_right hshort, Nat.sub_self, Nat.sub_eq_zero_of_le hshort]
            simp [bytesBefore, logicalBytes, readPages]
          · have hoff : addr + col + (w.ni.writesize - col) = addr + w.ni.writesize + 0 := by omega
            rw [Nat.min_eq_left hlong, hoff, ← hstep.logicalBytes, ← hws]
            refine ih hsame₂ (h.rest hstep (by omega) (by omega)) ?_ (by omega) (by omega)
            rw [hws, Nat.add_mod_right]
            exact haligned
        have hcache := hsame₁.pageCache
          (min (w.ni.writesize - col) len ≠ w.ni.writesize ∧
            (nmbmReadLogicPage addr w).1.2.data ≠ [])
          (fun ni => { ni with
            pageCache := overwrite ni.pageCache 0 (nmbmReadLogicPage addr w).1.2.data })
          (fun _ => rfl)
        refine ⟨?_, ?_⟩
        · rw [logicalBytes_add, hslice, (hrest _ hcache).1]
        · rw [(hrest _ hcache).2]
          omega

/-! ## `nmbm_mtd_read_data` -/

@[simp] theorem ReadCursor.moveOob_main (c : ReadCursor) (maxooblen : ℕ) (page : Page) :
    (c.moveOob maxooblen page).data = c.data ∧ (c.moveOob maxooblen page).retlen = c.retlen ∧
      (c.moveOob maxooblen page).len = c.len ∧ (c.moveOob maxooblen page).addr = c.addr ∧
      (c.moveOob maxooblen page).col = c.col := by
  rw [ReadCursor.moveOob]
  split <;> simp

theorem ReadCursor.moveOob_spare {c : ReadCursor} {maxooblen : ℕ} (page : Page)
    (hoffs : c.ooboffs < maxooblen) :
    (c.moveOob maxooblen page).ooboffs < maxooblen ∧
      (c.moveOob maxooblen page).ooblen ≤ c.ooblen ∧
      (0 < c.ooblen → (c.moveOob maxooblen page).ooblen < c.ooblen) := by
  rw [ReadCursor.moveOob]
  split
  · exact ⟨hoffs, le_rfl, by omega⟩
  · exact ⟨by simp; omega, by simp, by simp; omega⟩

theorem ReadCursor.next_page {c : ReadCursor} {maxooblen : ℕ} (ni : Instance) (page : Page)
    (hlen : 0 < c.len) (hoffs : c.ooboffs < maxooblen) :
    ∃ c' : ReadCursor, ((c.moveData ni page).moveOob maxooblen page) = c' ∧
      c'.addr = c.addr ∧ c'.col = 0 ∧ c'.len = c.len - min (ni.writesize - c.col) c.len ∧
      c'.data = c.data ++ slice page.data c.col (min (ni.writesize - c.col) c.len) ∧
      c'.retlen = c.retlen + min (ni.writesize - c.col) c.len ∧
      c'.ooboffs < maxooblen ∧ c'.ooblen ≤ c.ooblen := by
  have hmove : c.moveData ni page =
      { c with
        data := c.data ++ slice page.data c.col (min (ni.writesize - c.col) c.len)
        len := c.len - min (ni.writesize - c.col) c.len
        col := 0
        retlen := c.retlen + min (ni.writesize - c.col) c.len } := by
    rw [ReadCursor.moveData, if_neg hlen.ne']
  obtain ⟨hdata, hretlen, hlen', haddr, hcol⟩ :=
    (c.moveData ni page).moveOob_main maxooblen page
  obtain ⟨hoffs', hooblen, -⟩ :=
    ReadCursor.moveOob_spare (c := c.moveData ni page) page (by rw [hmove]; exact hoffs)
  rw [hmove] at hdata hretlen hlen' haddr hcol hooblen hoffs' ⊢
  exact ⟨_, rfl, haddr, hcol, hlen', hdata, hretlen, hoffs', hooblen⟩

theorem mtdReadLoop_complete (maxooblen fuel : ℕ) {c : ReadCursor} (w : World) (hlen : c.len = 0) :
    (mtdReadLoop maxooblen fuel c w).1.2.data = c.data ∧
      (mtdReadLoop maxooblen fuel c w).1.2.retlen = c.retlen := by
  induction fuel generalizing c w with
  | zero => simp [mtdReadLoop]
  | succ fuel ih =>
      rw [mtdReadLoop, ite_run]
      split
      · simp
      · rw [getNi_bind_run, bind_run, ite_run]
        split
        · simp
        · have hmove : ∀ page, c.moveData w.ni page = c := by
            intro page
            rw [ReadCursor.moveData, if_pos hlen]
          obtain ⟨hdata, hretlen, hrest, -⟩ := c.moveOob_main maxooblen
            (nmbmReadSinglePage (UInt64.ofNat c.addr) w).1.2
          rw [hmove]
          have hagain := ih (c := { c.moveOob maxooblen
              (nmbmReadSinglePage (UInt64.ofNat c.addr) w).1.2 with
            addr := (c.moveOob maxooblen
              (nmbmReadSinglePage (UInt64.ofNat c.addr) w).1.2).addr + w.ni.writesize })
            (nmbmReadSinglePage (UInt64.ofNat c.addr) w).2 (hrest.trans hlen)
          exact ⟨hagain.1.trans hdata, hagain.2.trans hretlen⟩

theorem mtdReadLoop_result {maxooblen fuel : ℕ} {c : ReadCursor} {w w' : World}
    (hsame : SameChip w w') (h : ReadRequest w (c.addr + c.col) c.len)
    (haligned : c.addr % w.ni.writesize = 0) (hcol : c.col < w.ni.writesize)
    (hoffs : c.ooboffs < maxooblen) (hfuel : c.len + c.ooblen ≤ fuel) :
    (mtdReadLoop maxooblen fuel c w').1.2.data = c.data ++ logicalBytes w (c.addr + c.col)
        (bytesBefore w.ni.writesize c.col c.len (readPages c.addr w.ni.writesize
          (pageCount w.ni.writesize c.col c.len) w).1) ∧
      (mtdReadLoop maxooblen fuel c w').1.2.retlen = c.retlen +
        bytesBefore w.ni.writesize c.col c.len (readPages c.addr w.ni.writesize
          (pageCount w.ni.writesize c.col c.len) w).1 := by
  induction fuel generalizing c w w' with
  | zero =>
      have hlen : c.len = 0 := by omega
      simp [mtdReadLoop, hlen, bytesBefore, logicalBytes]
  | succ fuel ih =>
      rcases Nat.eq_zero_or_pos c.len with hlen | hlen
      · obtain ⟨hdata, hretlen⟩ := mtdReadLoop_complete maxooblen (fuel + 1) w' hlen
        rw [hdata, hretlen, hlen]
        simp [bytesBefore, logicalBytes]
      obtain ⟨hvalue, hfail, hok⟩ :=
        readPages_succ (h.readable hlen) hsame haligned hcol h.full
      have hreadable' : Readable w' c.addr :=
        (h.readable hlen).of_core hsame.core (h.readable hlen).inside
      rw [mtdReadLoop, ite_run, if_neg (by omega), getNi_bind_run, bind_run,
        hreadable'.readSinglePage, hvalue, ite_run, pageCount_succ hlen hcol]
      by_cases hret : (nmbmReadLogicPage c.addr w).1.1 ≠ 0
      · rw [if_pos hret, hfail hret, pure_run]
        simp [bytesBefore, logicalBytes]
      · obtain ⟨hnext, hslice, hstep, hsame₁⟩ := hok (not_not.mp hret)
        have hws : (nmbmReadLogicPage c.addr w).2.ni.writesize = w.ni.writesize :=
          (congrArg Instance.writesize hstep.core :)
        obtain ⟨c', hc', haddr, hcol', hlen', hdata, hretlen, hoffs', hooblen⟩ :=
          ReadCursor.next_page w'.ni (nmbmReadLogicPage c.addr w).1.2 hlen hoffs
        rw [if_neg hret, hnext, bytesBefore_succ hcol.le, logicalBytes_add, ← List.append_assoc,
          ← Nat.add_assoc, ← hslice, hc', haddr]
        rw [hsame.writesize] at hlen' hdata hretlen ⊢
        rw [← hdata, ← hretlen, ← hlen']
        generalize (nmbmReadLogicPage c.addr w).2 = w₁ at *
        rcases Nat.le_total c.len (w.ni.writesize - c.col) with hshort | hlong
        · have hdone : c'.len = 0 := by omega
          obtain ⟨hdata', hretlen'⟩ := mtdReadLoop_complete maxooblen fuel
            (c := { c' with addr := c.addr + w.ni.writesize }) (nmbmReadLogicPage c.addr w').2 hdone
          rw [hdata', hretlen', hdone]
          simp [bytesBefore, logicalBytes]
        · rw [Nat.min_eq_left hlong] at hlen' ⊢
          have hoff : c.addr + c.col + (w.ni.writesize - c.col) =
              c.addr + w.ni.writesize + c'.col := by omega
          have hrest := ih (c := { c' with addr := c.addr + w.ni.writesize }) hsame₁
            (h.rest hstep (by simp; omega) (by simp; omega))
            (by rw [hws]; simpa using haligned) (by rw [hws]; simp; omega) hoffs' (by simp; omega)
          rw [hws, hstep.logicalBytes] at hrest
          rw [hoff, ← hlen', ← hcol']
          exact hrest

/-! ## Both paths of `nmbm_mtd_read_oob` -/

def readablePages (w : World) (addr len : ℕ) : ℕ :=
  (readPages (addr - addr % w.ni.writesize) w.ni.writesize
    (pageCount w.ni.writesize (addr % w.ni.writesize) len) w).1

/-- How many bytes of a request lie in these pages. -/
def readableBytes (w : World) (addr len : ℕ) : ℕ :=
  bytesBefore w.ni.writesize (addr % w.ni.writesize) len (readablePages w addr len)

theorem readableBytes_all {w : World} {addr len : ℕ} (hws : 0 < w.ni.writesize)
    (hall : readablePages w addr len =
      pageCount w.ni.writesize (addr % w.ni.writesize) len) :
    readableBytes w addr len = len := by
  rw [readableBytes, bytesBefore, hall]
  rcases Nat.eq_zero_or_pos len with rfl | hlen
  · simp
  · have hbytes : addr % w.ni.writesize + len ≤
        pageCount w.ni.writesize (addr % w.ni.writesize) len * w.ni.writesize :=
      (pageCount_bounds hlen hws).1
    omega

theorem nmbmReadSinglePage_protected {w : World} (h : w.ni.protectedMode = true) (addr : UInt64) :
    (nmbmReadSinglePage addr w).1.1 ≠ 0 := by
  rw [nmbmReadSinglePage, getNi_bind_run, ite_run, if_pos h, pure_run]
  exact (by decide : -erofs ≠ 0)

theorem readablePages_protected {w : World} (h : w.ni.protectedMode = true) (addr len : ℕ) :
    readablePages w addr len = 0 := by
  unfold readablePages
  cases pageCount w.ni.writesize (addr % w.ni.writesize) len with
  | zero => rfl
  | succ count =>
      rw [readPages, bind_run, ite_run, if_pos (nmbmReadSinglePage_protected h _), pure_run]

@[simp] theorem readableBytes_zero (w : World) (addr : ℕ) : readableBytes w addr 0 = 0 := by
  simp [readableBytes, bytesBefore]

theorem readableBytes_protected {w : World} (h : w.ni.protectedMode = true) (addr len : ℕ) :
    readableBytes w addr len = 0 := by
  simp [readableBytes, bytesBefore, readablePages_protected h]

theorem nmbmReadRange_result {w : World} {addr size : UInt64} (hsound : w.ni.lower.Sound)
    (hcount : w.ni.dataBlockCount < 2 ^ 32)
    (hinside : addr.toNat + size.toNat ≤ w.ni.dataBlockCount * w.ni.erasesize)
    (hfull : FullPages w addr.toNat size.toNat) :
    (nmbmReadRange addr size w).1.2 =
        logicalBytes w addr.toNat (readableBytes w addr.toNat size.toNat) ∧
      ((nmbmReadRange addr size w).1.1 = 0 →
        readablePages w addr.toNat size.toNat =
          pageCount w.ni.writesize (addr.toNat % w.ni.writesize) size.toNat) := by
  have harea : w.ni.dataBlockCount * w.ni.erasesize < 2 ^ 64 := by
    calc w.ni.dataBlockCount * w.ni.erasesize
        < 2 ^ 32 * 2 ^ 32 := Nat.mul_lt_mul'' hcount w.ni.lower.erasesize.toNat_lt
      _ = 2 ^ 64 := by norm_num
  have hsum : (addr + size).toNat = addr.toNat + size.toNat := by
    rw [UInt64.toNat_add, Nat.mod_eq_of_lt (by omega)]
  rw [nmbmReadRange, getNi_bind_run, ite_run]
  split
  case isTrue hprotected =>
      rw [readableBytes_protected hprotected]
      exact ⟨rfl, fun hret => by cases hret⟩
  case isFalse hprotected =>
      rw [ite_run, hsound.ba2addr_eq]
      split
      case isTrue hend =>
          have hsize : size.toNat = 0 := by
            have : w.ni.dataBlockCount * w.ni.erasesize ≤ addr.toNat := hend
            omega
          rw [hsize, readableBytes_zero]
          exact ⟨rfl, fun hret => by cases hret⟩
      case isFalse hstart =>
          rw [ite_run, hsum, if_neg (Nat.not_lt.mpr hinside)]
          have hws : 0 < w.ni.writesize := hsound.writesize_pos
          have hsplit : addr.toNat - addr.toNat % w.ni.writesize +
              addr.toNat % w.ni.writesize = addr.toNat :=
            Nat.sub_add_cancel (Nat.mod_le _ _)
          have hrequest : ReadRequest w (addr.toNat - addr.toNat % w.ni.writesize +
              addr.toNat % w.ni.writesize) size.toNat := by
            rw [hsplit]
            exact ⟨by simpa using hprotected, hinside, hcount, hsound, hfull⟩
          have hloop := readRangeLoop_result (SameChip.refl w) hrequest
            (Nat.sub_mod_eq_zero_of_mod_eq (Nat.mod_mod _ _).symm) (Nat.mod_lt _ hws) le_rfl
          rw [hsplit] at hloop
          exact ⟨hloop.1, hloop.2.mp⟩

theorem nmbmMtdReadData_protected {nm : NmbmMtd} {start : UInt64} {ops : OobOps} {w : World}
    (h : w.ni.protectedMode = true) :
    (nmbmMtdReadData nm start ops w).1.2.data = [] ∧
      (nmbmMtdReadData nm start ops w).1.2.retlen = 0 := by
  rw [nmbmMtdReadData, getNi_bind_run]
  cases ops.len + ops.ooblen with
  | zero => exact ⟨rfl, rfl⟩
  | succ fuel =>
      rw [mtdReadLoop, ite_run]
      split
      · exact ⟨rfl, rfl⟩
      · rw [getNi_bind_run, bind_run, ite_run, if_pos (nmbmReadSinglePage_protected h _)]
        exact ⟨rfl, rfl⟩

theorem nmbmMtdReadData_result {nm : NmbmMtd} {start : UInt64} {ops : OobOps} {w : World}
    (hsound : w.ni.lower.Sound) (hcount : w.ni.dataBlockCount < 2 ^ 32)
    (hinside : start.toNat + ops.len ≤ w.ni.dataBlockCount * w.ni.erasesize)
    (hfull : FullPages w start.toNat ops.len) (hoffs : ops.ooboffs < mtdOobavail nm w.ni ops)
    (hstart : start.toNat < 2 ^ 32) :
    (nmbmMtdReadData nm start ops w).1.2.data =
        logicalBytes w start.toNat (readableBytes w start.toNat ops.len) ∧
      (nmbmMtdReadData nm start ops w).1.2.retlen = readableBytes w start.toNat ops.len := by
  cases hprotected : w.ni.protectedMode with
  | true =>
      rw [readableBytes_protected hprotected]
      exact nmbmMtdReadData_protected hprotected
  | false =>
      have hws : 0 < w.ni.writesize := hsound.writesize_pos
      have hsplit : start.toNat - start.toNat % w.ni.writesize +
          start.toNat % w.ni.writesize = start.toNat :=
        Nat.sub_add_cancel (Nat.mod_le _ _)
      have hrequest : ReadRequest w (start.toNat - start.toNat % w.ni.writesize +
          start.toNat % w.ni.writesize) ops.len := by
        rw [hsplit]
        exact ⟨hprotected, hinside, hcount, hsound, hfull⟩
      have hloop := mtdReadLoop_result (SameChip.refl w)
        (c := ⟨start.toNat - start.toNat % w.ni.writesize, start.toNat % w.ni.writesize,
          ops.ooboffs, ops.len, ops.ooblen, [], [], 0, 0⟩) hrequest
        (Nat.sub_mod_eq_zero_of_mod_eq (Nat.mod_mod _ _).symm) (Nat.mod_lt _ hws) hoffs le_rfl
      rw [nmbmMtdReadData, getNi_bind_run, pageAddress, pageColumn, Nat.mod_eq_of_lt hstart]
      simpa [hsplit, readableBytes, readablePages] using hloop

/-- Reading with spare bytes and reading the data alone deliver the same bytes
and report the same length, up to the first page that cannot be read. -/
theorem read_paths_agree (nm : NmbmMtd) (start : UInt64) (ops : OobOps) {w : World}
    (hsound : w.ni.lower.Sound) (hcount : w.ni.dataBlockCount < 2 ^ 32)
    (hsize : nm.size.toNat = w.ni.dataBlockCount * w.ni.erasesize)
    (hrange : start.toNat + ops.len ≤ nm.size.toNat)
    (hfull : FullPages w start.toNat ops.len)
    (hdatbuf : ops.datbuf ≠ none) (hoobbuf : ops.oobbuf ≠ none)
    (hoob : oobRangeOk nm w.ni start ops = true) (hstart : start.toNat < 2 ^ 32) :
    (nmbmMtdReadOob nm start ops w).1.data =
        logicalBytes w start.toNat (readableBytes w start.toNat ops.len) ∧
      (nmbmMtdReadOob nm start ops w).1.retlen = readableBytes w start.toNat ops.len ∧
      (nmbmMtdReadOob nm start { ops with oobbuf := none } w).1.data =
        logicalBytes w start.toNat (readableBytes w start.toNat ops.len) ∧
      (nmbmMtdReadOob nm start { ops with oobbuf := none } w).1.retlen =
        readableBytes w start.toNat ops.len ∧
      (readablePages w start.toNat ops.len =
          pageCount w.ni.writesize (start.toNat % w.ni.writesize) ops.len →
        readableBytes w start.toNat ops.len = ops.len) := by
  have hlen : (UInt64.ofNat ops.len).toNat = ops.len := by
    have := nm.size.toNat_lt
    rw [UInt64.toNat_ofNat', Nat.mod_eq_of_lt (by omega)]
  have hend : ¬ start + UInt64.ofNat ops.len > nm.size := by
    rw [gt_iff_lt, UInt64.lt_iff_toNat_lt, UInt64.toNat_add, hlen,
      Nat.mod_eq_of_lt (hrange.trans_lt nm.size.toNat_lt)]
    omega
  rw [hsize] at hrange
  have hoffs : ops.ooboffs < mtdOobavail nm w.ni ops := by
    simp [oobRangeOk] at hoob
    exact hoob.1.1
  obtain ⟨hslow, hslowlen⟩ := nmbmMtdReadData_result hsound hcount hrange hfull hoffs hstart
  have hfast : (nmbmReadRange start (UInt64.ofNat ops.len) w).1.2 =
      logicalBytes w start.toNat (readableBytes w start.toNat (UInt64.ofNat ops.len).toNat) :=
    (nmbmReadRange_result hsound hcount (by rw [hlen]; exact hrange) (by rw [hlen]; exact hfull)).1
  rw [hlen] at hfast
  have hwith : (nmbmMtdReadOob nm start ops w).1 =
      ⟨(nmbmMtdReadData nm start ops w).1.1, (nmbmMtdReadData nm start ops w).1.2.data,
        (nmbmMtdReadData nm start ops w).1.2.retlen⟩ := by
    rw [nmbmMtdReadOob, getNi_bind_run, ite_run, if_neg (fun h => hoobbuf h.1), ite_run,
      if_neg (fun h => hend h.2), ite_run, if_neg hoobbuf, ite_run, if_neg (by simp [hoob])]
    rfl
  have hwithout : (nmbmMtdReadOob nm start { ops with oobbuf := none } w).1.data =
        (nmbmReadRange start (UInt64.ofNat ops.len) w).1.2 ∧
      (nmbmMtdReadOob nm start { ops with oobbuf := none } w).1.retlen =
        (nmbmReadRange start (UInt64.ofNat ops.len) w).1.2.length := by
    rw [nmbmMtdReadOob, getNi_bind_run, ite_run, if_neg (fun h => hdatbuf h.2), ite_run,
      if_neg (fun h => hend h.2), ite_run, if_pos rfl]
    exact ⟨rfl, rfl⟩
  rw [hwith, hwithout.1, hwithout.2, hfast, length_logicalBytes]
  exact ⟨hslow, hslowlen, rfl, rfl, readableBytes_all hsound.writesize_pos⟩

def numberedWorld (nld : LowerDevice) : World :=
  let flash : Flash :=
    { blankFlash [] with
      pages := fun ba _ => ⟨List.replicate 64 (UInt8.ofNat ba), List.replicate 16 0xff⟩ }
  { World.powerOn nld flash (fun _ => Response.ok) with
    ni := { nmbmInitStructure nld with
      dataBlockCount := 12
      blockMapping := (List.range 12).map Int.ofNat } }

def tenBytes : OobOps := ⟨.placeOob, 10, 16, 0, some [], some []⟩

theorem read_paths_agree_small :
    (nmbmMtdReadOob ⟨3072, 8, []⟩ 250 tenBytes (numberedWorld (smallDevice 1))).1.data =
        [0, 0, 0, 0, 0, 0, 1, 1, 1, 1] ∧
      (nmbmMtdReadOob ⟨3072, 8, []⟩ 250 { tenBytes with oobbuf := none }
        (numberedWorld (smallDevice 1))).1.data = [0, 0, 0, 0, 0, 0, 1, 1, 1, 1] := by
  have hsound : (numberedWorld (smallDevice 1)).ni.lower.Sound :=
    ⟨by decide +kernel, by decide +kernel⟩
  have hfull : FullPages (numberedWorld (smallDevice 1)) 250 10 := fun _ _ _ => rfl
  obtain ⟨hslow, -, hfast, -⟩ := read_paths_agree ⟨3072, 8, []⟩ 250 tenBytes hsound (by decide +kernel) (by decide +kernel) (by decide +kernel) hfull
    (by decide) (by decide) (by decide +kernel) (by decide)
  have hbytes : logicalBytes (numberedWorld (smallDevice 1)) 250
      (readableBytes (numberedWorld (smallDevice 1)) 250 10) = [0, 0, 0, 0, 0, 0, 1, 1, 1, 1] := by
    decide +kernel
  exact ⟨hslow.trans hbytes, hfast.trans hbytes⟩

def hugeDevice : LowerDevice := { smallDevice 1 with size := 2 ^ 33, erasesize := 2 ^ 29 }

/-- Behind four gigabytes the page address loses its upper half: at the start of
block 8 the request with spare bytes delivers the bytes of block 0. -/
theorem read_paths_differ :
    nmbmCheckLowerMembers hugeDevice = some hugeDevice ∧
      (nmbmMtdReadOob ⟨12 * 2 ^ 29, 8, []⟩ (2 ^ 32) tenBytes (numberedWorld hugeDevice)).1 =
        ⟨0, List.replicate 10 0, 10⟩ ∧
      (nmbmMtdReadOob ⟨12 * 2 ^ 29, 8, []⟩ (2 ^ 32) { tenBytes with oobbuf := none }
        (numberedWorld hugeDevice)).1 = ⟨0, List.replicate 10 8, 10⟩ ∧
      logicalBytes (numberedWorld hugeDevice) (2 ^ 32) 10 = List.replicate 10 8 := by
  decide +kernel

end Nwa50ax.Nmbm
