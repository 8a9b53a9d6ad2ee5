import Nwa50ax.Nmbm.Ops
import Nwa50ax.Nmbm.PageReads
import Nwa50ax.Nmbm.Primitives

/-!
# What is programmed into the pages

A request lays its bytes over a row of pages.  The program operations that
`nmbm_write_range` and `nmbm_mtd_write_data` issue are compared with this row.
-/

namespace Nwa50ax.Nmbm

open ByteBuffer StateProgram Paging

/-! ## Program operations that are issued -/

/-- The operations `ps` are issued in their order, all of them when the request
succeeds. -/
structure Issued (ps : List PageProgram) (ret : ℤ) (w w' : World) : Prop where
  upTo : ∃ k, w'.programs = w.programs ++ ps.take k
  all : ret = 0 → w'.programs = w.programs ++ ps

theorem Issued.nil {ret : ℤ} {w w' : World} (h : w'.programs = w.programs) :
    Issued [] ret w w' :=
  ⟨⟨0, by simpa using h⟩, fun _ => by simpa using h⟩

theorem Issued.stopped {p : PageProgram} {ps : List PageProgram} {ret : ℤ} {w w' : World}
    (h : Issued [p] ret w w') (hret : ret ≠ 0) : Issued (p :: ps) ret w w' := by
  obtain ⟨k, hk⟩ := h.upTo
  refine ⟨⟨min k 1, ?_⟩, fun hzero => absurd hzero hret⟩
  rw [hk]
  cases k with
  | zero => rfl
  | succ k => simp

theorem Issued.cons {p : PageProgram} {ps : List PageProgram} {ret ret' : ℤ} {w w' w'' : World}
    (h : Issued [p] ret w w') (hret : ret = 0) (hrest : Issued ps ret' w' w'') :
    Issued (p :: ps) ret' w w'' := by
  obtain ⟨k, hk⟩ := hrest.upTo
  refine ⟨⟨k + 1, ?_⟩, fun hzero => ?_⟩
  · rw [hk, h.all hret]
    simp
  · rw [hrest.all hzero, h.all hret]
    simp

def NoPrograms (w w' : World) : Prop := w'.programs = w.programs

instance : Std.Refl NoPrograms := ⟨fun _ => rfl⟩

instance : IsTrans World NoPrograms := ⟨fun _ _ _ h h' => h'.trans h⟩

theorem noPrograms_primitives : KeptByPrimitives NoPrograms where
  readPage _ _ := rfl
  writePage _ _ _ _ _ := rfl
  eraseBlock _ _ := rfl
  isBadBlock _ _ := rfl
  markBadBlock _ _ := rfl
  modifyNi _ _ := rfl
  record _ _ := rfl
  noteTable _ _ := rfl
  recordUpdate _ _ := rfl

theorem nmbmWriteLogicPage_issued (addr : ℕ) (data oob : Option (List UInt8)) (mode : OobMode)
    (w : World) : Issued [⟨addr, data, oob⟩] (nmbmWriteLogicPage addr data oob mode w).1 w
      (nmbmWriteLogicPage addr data oob mode w).2 := by
  have hafter : ∀ pb target, NoPrograms (recordProgram ⟨addr, data, oob⟩ w).2
      ((do
        let success ← nmbmWritePhysPage target data oob mode
        if success then
          return 0
        assignBlockState pb blockStNeedRemap
        let _ ← nmbmUpdateInfoTable
        return -eio : Driver ℤ) (recordProgram ⟨addr, data, oob⟩ w).2).2 := by
    intro pb target
    refine Keeps.bind (noPrograms_primitives.writePhysPage _ _ _ _) (fun success => ?_) _
    refine Keeps.ite (fun _ => Keeps.pure _) (fun _ => ?_)
    refine Keeps.bind (noPrograms_primitives.modifyNi _) fun _ => ?_
    exact Keeps.bind noPrograms_primitives.updateInfoTable fun _ => Keeps.pure _
  unfold nmbmWriteLogicPage
  rw [getNi_bind_run, ite_run]
  split
  · exact ⟨⟨0, by simp⟩, fun hret => by cases hret⟩
  rw [ite_run]
  split
  · exact ⟨⟨0, by simp⟩, fun hret => by cases hret⟩
  · rw [bind_run]
    exact ⟨⟨1, hafter _ _⟩, fun _ => hafter _ _⟩

theorem nmbmWriteSinglePage_issued {addr : ℕ} (haddr : addr < 2 ^ 64)
    (data oob : Option (List UInt8)) (mode : OobMode) (w : World) :
    Issued [⟨addr, data, oob⟩] (nmbmWriteSinglePage (UInt64.ofNat addr) data oob mode w).1 w
      (nmbmWriteSinglePage (UInt64.ofNat addr) data oob mode w).2 := by
  have htoNat : (UInt64.ofNat addr).toNat = addr := by
    rw [UInt64.toNat_ofNat', Nat.mod_eq_of_lt haddr]
  unfold nmbmWriteSinglePage
  rw [getNi_bind_run, ite_run]
  split
  · exact ⟨⟨0, by simp⟩, fun hret => by cases hret⟩
  rw [ite_run]
  split
  · exact ⟨⟨0, by simp⟩, fun hret => by cases hret⟩
  · rw [htoNat]
    exact nmbmWriteLogicPage_issued addr data oob mode w

/-! ## Pages that have been written -/

theorem nmbmWritePhysPage_ni (addr : ℕ) (data oob : Option (List UInt8)) (mode : OobMode)
    (w : World) : (nmbmWritePhysPage addr data oob mode w).2.ni = w.ni := by
  unfold nmbmWritePhysPage
  simp only [bind_run, pure_run]
  induction nmbmTryCount - 1 generalizing w with
  | zero => rfl
  | succ extra ih =>
      simp only [tryTimes, bind_run, ite_run]
      split
      · rfl
      · exact ih _

theorem nmbmWritePhysPage_success {addr : ℕ} {data : List UInt8} {oob : Option (List UInt8)}
    {mode : OobMode} {w : World} (h : (nmbmWritePhysPage addr (some data) oob mode w).1 = true) :
    ((nmbmWritePhysPage addr (some data) oob mode w).2.flash.pages (blockOf w.ni addr)
      (pageOf w.ni addr)).data = data := by
  have hwrite : ∀ w : World, (lowerWritePage addr (some data) oob mode w).1.1 = 0 →
      ((lowerWritePage addr (some data) oob mode w).2.flash.pages (blockOf w.ni addr)
        (pageOf w.ni addr)).data = data := by
    intro w hret
    have hok : (w.pattern w.tick).ret = 0 := hret
    simp [lowerWritePage, issue, LowerOp.apply, Flash.setPage, hok]
  unfold nmbmWritePhysPage at h ⊢
  simp only [bind_run, pure_run, decide_eq_true_eq] at h ⊢
  generalize nmbmTryCount - 1 = extra at h ⊢
  induction extra generalizing w with
  | zero => exact hwrite w h
  | succ extra ih =>
      simp only [tryTimes, bind_run, ite_run] at h ⊢
      split at h
      case isTrue hret =>
          rw [if_pos hret]
          exact hwrite w hret
      case isFalse hret =>
          rw [if_neg hret]
          exact ih h

theorem logicalPage_of_maps {w : World} {a pb : ℕ} (h : w.ni.Maps (a / w.ni.erasesize) pb) :
    logicalPage w a = w.flash.pages pb (a % w.ni.erasesize / w.ni.writesize) := by
  unfold logicalPage
  rw [List.getD_eq_getElem?_getD, h]
  rfl

theorem LowerDevice.Sound.page_number {ni : Instance} (hsound : ni.lower.Sound) (a : ℕ) :
    a / ni.writesize = ni.erasesize / ni.writesize * (a / ni.erasesize) +
      a % ni.erasesize / ni.writesize := by
  obtain ⟨pages, hpages⟩ : ni.writesize ∣ ni.erasesize := hsound.writesize_dvd
  have hws : 0 < ni.writesize := hsound.writesize_pos
  rw [hpages, Nat.mod_mul_right_div_self, ← Nat.div_div_eq_div_mul, Nat.mul_div_cancel_left _ hws]
  exact (Nat.div_add_mod _ _).symm

theorem nmbmWriteLogicPage_success {addr : ℕ} {data : List UInt8} {oob : Option (List UInt8)}
    {mode : OobMode} {w : World} (hsound : w.ni.lower.Sound)
    (haddr : addr / w.ni.erasesize < 2 ^ 32)
    (hunique : ∀ lb lb' pb, w.ni.Maps lb pb → w.ni.Maps lb' pb → lb = lb')
    (hret : (nmbmWriteLogicPage addr (some data) oob mode w).1 = 0) :
    (nmbmWriteLogicPage addr (some data) oob mode w).2.ni = w.ni ∧
      (∃ pb, w.ni.Maps (addr / w.ni.erasesize) pb) ∧
      (logicalPage (nmbmWriteLogicPage addr (some data) oob mode w).2 addr).data = data ∧
      ∀ a pb, w.ni.Maps (a / w.ni.erasesize) pb →
        a / w.ni.writesize ≠ addr / w.ni.writesize →
        logicalPage (nmbmWriteLogicPage addr (some data) oob mode w).2 a = logicalPage w a := by
  unfold nmbmWriteLogicPage at hret ⊢
  simp only [getNi_bind_run, ite_run, hsound.addr2ba_eq haddr] at hret ⊢
  split at hret
  · cases hret
  rename_i hentry
  rw [if_neg hentry]
  split at hret
  · cases hret
  rename_i hstate
  rw [if_neg hstate]
  have hmaps := Instance.maps_of_getD hentry
  generalize (w.ni.blockMapping.getD (addr / w.ni.erasesize) (-1)).toNat = pb at hmaps hret ⊢
  obtain ⟨hblock, hpage⟩ := hsound.physical_page pb addr
  rw [bind_run, bind_run, ite_run] at hret ⊢
  have hni := nmbmWritePhysPage_ni (ba2addr w.ni pb + w.ni.inBlockOffset addr) (some data) oob mode
    (recordProgram ⟨addr, some data, oob⟩ w).2
  have hother : ∀ ba pg, ba ≠ pb ∨ pg ≠ addr % w.ni.erasesize / w.ni.writesize →
      (nmbmWritePhysPage (ba2addr w.ni pb + w.ni.inBlockOffset addr) (some data) oob mode
        (recordProgram ⟨addr, some data, oob⟩ w).2).2.flash.pages ba pg =
      w.flash.pages ba pg := by
    intro ba pg hne
    refine nmbmWritePhysPage_pages _ _ _ _ (recordProgram ⟨addr, some data, oob⟩ w).2 ?_
    exact hne.imp (fun h => h.trans_eq hblock.symm) (fun h => h.trans_eq hpage.symm)
  split at hret
  case isTrue hsuccess =>
      rw [if_pos hsuccess]
      have hdata := nmbmWritePhysPage_success hsuccess
      rw [show blockOf (recordProgram ⟨addr, some data, oob⟩ w).2.ni _ = pb from hblock,
        show pageOf (recordProgram ⟨addr, some data, oob⟩ w).2.ni _ = _ from hpage] at hdata
      generalize nmbmWritePhysPage (ba2addr w.ni pb + w.ni.inBlockOffset addr) (some data) oob mode
        (recordProgram ⟨addr, some data, oob⟩ w).2 = result at hni hother hdata ⊢
      replace hni : result.2.ni = w.ni := hni
      refine ⟨hni, ⟨pb, hmaps⟩, ?_, fun a pb' hmaps' hne => ?_⟩
      · rw [pure_run, logicalPage_of_maps (by rw [hni]; exact hmaps), hni]
        exact hdata
      · rw [pure_run, logicalPage_of_maps (by rw [hni]; exact hmaps'), logicalPage_of_maps hmaps',
          hni]
        apply hother
        by_contra! hsame
        obtain ⟨rfl, hpg⟩ := hsame
        apply hne
        rw [hsound.page_number a, hsound.page_number addr, hunique _ _ _ hmaps' hmaps, hpg]
  case isFalse hfailed => cases hret

/-! ## `nmbm_write_range` -/

def rowPrograms (writesize addr : ℕ) (content spare : ℕ → Option (List UInt8)) (count : ℕ) :
    List PageProgram :=
  (List.range count).map fun k => ⟨addr + k * writesize, content k, spare k⟩

theorem rowPrograms_succ (writesize addr : ℕ) (content spare : ℕ → Option (List UInt8))
    (count : ℕ) :
    rowPrograms writesize addr content spare (count + 1) =
      ⟨addr, content 0, spare 0⟩ :: rowPrograms writesize (addr + writesize)
        (fun k => content (k + 1)) (fun k => spare (k + 1)) count := by
  unfold rowPrograms
  rw [List.range_succ_eq_map, List.map_cons, List.map_map, Nat.zero_mul, Nat.add_zero]
  congr 1
  apply List.map_congr_left
  intro k _
  simp only [Function.comp_apply, Nat.succ_eq_add_one, Nat.succ_mul]
  rw [Nat.add_assoc, Nat.add_comm writesize]

theorem rowPrograms_congr {writesize addr count : ℕ} {content content' spare spare' :
    ℕ → Option (List UInt8)} (h : ∀ k < count, content k = content' k ∧ spare k = spare' k) :
    rowPrograms writesize addr content spare count =
      rowPrograms writesize addr content' spare' count := by
  apply List.map_congr_left
  intro k hk
  obtain ⟨hcontent, hspare⟩ := h k (List.mem_range.mp hk)
  rw [hcontent, hspare]

/-- The operations that carry `data` from position `col` of the page `addr` on,
with 0xff around it and without spare bytes. -/
def dataPrograms (writesize addr col : ℕ) (data : List UInt8) : List PageProgram :=
  rowPrograms writesize addr (fun k => some (page 0xff writesize col data k)) (fun _ => none)
    (pageCount writesize col data.length)

theorem dataPrograms_cons {writesize addr col : ℕ} {data : List UInt8} (hdata : 0 < data.length)
    (hcol : col < writesize) :
    dataPrograms writesize addr col data =
      ⟨addr, some (page 0xff writesize col data 0), none⟩ ::
        dataPrograms writesize (addr + writesize) 0 (data.drop (writesize - col)) := by
  unfold dataPrograms
  rw [pageCount_succ hdata hcol, rowPrograms_succ, List.length_drop]
  simp only [page_succ hcol.le]

theorem nmbmWriteLogicPage_ni {addr : ℕ} {data oob : Option (List UInt8)} {mode : OobMode}
    {w : World} (hret : (nmbmWriteLogicPage addr data oob mode w).1 = 0) :
    (nmbmWriteLogicPage addr data oob mode w).2.ni = w.ni := by
  unfold nmbmWriteLogicPage at hret ⊢
  simp only [getNi_bind_run, ite_run] at hret ⊢
  split at hret
  · cases hret
  split at hret
  · cases hret
  rename_i hentry hstate
  rw [if_neg hentry, if_neg hstate]
  rw [bind_run, bind_run, ite_run] at hret ⊢
  split at hret
  case isTrue hsuccess =>
      rw [if_pos hsuccess, pure_run]
      exact nmbmWritePhysPage_ni _ _ _ _ _
  case isFalse hfailed => cases hret

theorem chunkPage_result {leading : ℕ} {chunk : List UInt8} {w : World}
    (hend : leading + chunk.length = w.ni.writesize) :
    (chunkPage leading chunk w).1 = List.replicate leading 0xff ++ chunk ∧
      SameChip w (chunkPage leading chunk w).2 ∧ NoPrograms w (chunkPage leading chunk w).2 := by
  rw [chunkPage, getNi_bind_run, ite_run]
  split
  case isTrue hwhole =>
      obtain rfl : leading = 0 := by omega
      exact ⟨rfl, SameChip.refl w, rfl⟩
  case isFalse hpart =>
      refine ⟨?_, ⟨rfl, rfl, rfl, rfl⟩, rfl⟩
      change (overwrite (overwrite w.ni.pageCache 0 (List.replicate leading 0xff))
        leading chunk).take w.ni.writesize = _
      unfold overwrite
      rw [List.take_zero, List.nil_append, List.take_append_of_le_length (by simp; omega),
        List.take_of_length_le (by simp; omega), List.take_left' (by simp)]

theorem writeRangeLoop_first (mode : OobMode) {addr col : ℕ} (fuel : ℕ) {data : List UInt8}
    {w : World} (haligned : addr % w.ni.writesize = 0) (hcol : col < w.ni.writesize)
    (hend : (col + data.length) % w.ni.writesize = 0) (hdata : 0 < data.length) :
    ∃ w₁, SameChip w w₁ ∧ NoPrograms w w₁ ∧
      writeRangeLoop mode (addr + col) (fuel + 1) data w =
        (let result := nmbmWriteLogicPage addr
          (some (page 0xff w.ni.writesize col data 0)) none mode w₁
        if result.1 ≠ 0 then ((result.1, data.length), result.2)
        else writeRangeLoop mode (addr + w.ni.writesize) fuel
          (data.drop (w.ni.writesize - col)) result.2) := by
  have hmod : (addr + col) % w.ni.writesize = col := by
    rw [Nat.add_mod, haligned, Nat.zero_add, Nat.mod_mod, Nat.mod_eq_of_lt hcol]
  have hreach : w.ni.writesize - col ≤ data.length := by
    have := Nat.le_of_dvd (by omega) (Nat.dvd_of_mod_eq_zero hend)
    omega
  have hchunk : (data.take (w.ni.writesize - col)).length = w.ni.writesize - col :=
    List.length_take_of_le hreach
  have hreached : col + (data.take (w.ni.writesize - col)).length = w.ni.writesize := by omega
  obtain ⟨hpage, hsame, hprograms⟩ := chunkPage_result hreached
  refine ⟨_, hsame, hprograms, ?_⟩
  have hnil : data ≠ [] := List.ne_nil_of_length_pos hdata
  rw [writeRangeLoop, ite_run, if_neg hnil, getNi_bind_run, hmod, bind_run, hpage, bind_run,
    ite_run, Nat.add_sub_cancel, hchunk, page_zero hcol.le,
    Nat.sub_eq_zero_of_le hreach, List.replicate_zero, List.append_nil,
    show addr + col + (w.ni.writesize - col) = addr + w.ni.writesize by omega]
  rfl

theorem rest_ends {writesize col len : ℕ} (hcol : col < writesize) (hlen : 0 < len)
    (hend : (col + len) % writesize = 0) :
    writesize - col ≤ len ∧ (0 + (len - (writesize - col))) % writesize = 0 := by
  have hle := Nat.le_of_dvd (by omega) (Nat.dvd_of_mod_eq_zero hend)
  refine ⟨by omega, ?_⟩
  have hsplit : col + len = 0 + (len - (writesize - col)) + writesize := by omega
  rw [hsplit, Nat.add_mod_right] at hend
  exact hend

theorem Issued.of_noPrograms {ps : List PageProgram} {ret : ℤ} {w w₁ w' : World}
    (h : NoPrograms w w₁) (hissued : Issued ps ret w₁ w') : Issued ps ret w w' :=
  ⟨h ▸ hissued.upTo, h ▸ hissued.all⟩

theorem writeRangeLoop_issued (mode : OobMode) (addr col fuel : ℕ) (data : List UInt8) {w : World}
    (haligned : addr % w.ni.writesize = 0) (hcol : col < w.ni.writesize)
    (hend : (col + data.length) % w.ni.writesize = 0) (hfuel : data.length ≤ fuel) :
    Issued (dataPrograms w.ni.writesize addr col data)
      (writeRangeLoop mode (addr + col) fuel data w).1.1 w
      (writeRangeLoop mode (addr + col) fuel data w).2 := by
  induction fuel generalizing addr col data w with
  | zero =>
      obtain rfl : data = [] := List.length_eq_zero_iff.mp (by omega)
      exact Issued.nil rfl
  | succ fuel ih =>
      rcases Nat.eq_zero_or_pos data.length with hzero | hdata
      · obtain rfl : data = [] := List.length_eq_zero_iff.mp hzero
        exact Issued.nil rfl
      obtain ⟨w₁, hsame, hprograms, hrun⟩ := writeRangeLoop_first mode fuel
        haligned hcol hend hdata
      have hfirst := nmbmWriteLogicPage_issued addr
        (some (page 0xff w.ni.writesize col data 0)) none mode w₁
      rw [hrun, dataPrograms_cons hdata hcol]
      refine Issued.of_noPrograms hprograms ?_
      by_cases hret : (nmbmWriteLogicPage addr
          (some (page 0xff w.ni.writesize col data 0)) none mode w₁).1 = 0
      · have hws := congrArg Instance.writesize (nmbmWriteLogicPage_ni hret)
        rw [hsame.writesize] at hws
        obtain ⟨hreach, hrest⟩ := rest_ends hcol hdata hend
        simp only [hret, ne_eq, not_true, if_false]
        refine hfirst.cons hret ?_
        have hloop := ih (addr + w.ni.writesize) 0 (data.drop (w.ni.writesize - col))
          (by rw [hws, Nat.add_mod_right, haligned]) (by omega)
          (by rw [hws, List.length_drop]; exact hrest) (by simp; omega)
        rw [hws] at hloop
        exact hloop
      · simp only [hret, ne_eq, not_false_iff, if_true]
        exact hfirst.stopped hret

theorem SameChip.logicalPage {w w' : World} (h : SameChip w w') (a : ℕ) :
    logicalPage w' a = logicalPage w a := by
  have hes : w'.ni.erasesize = w.ni.erasesize := (congrArg Instance.erasesize h.core :)
  unfold Nmbm.logicalPage
  rw [h.flash, h.blockMapping, hes, h.writesize]

theorem Instance.maps_core {ni ni' : Instance} (h : ni'.core = ni.core) (lb pb : ℕ) :
    ni'.Maps lb pb ↔ ni.Maps lb pb := by
  have hmapping : ni'.blockMapping = ni.blockMapping := (congrArg Instance.blockMapping h :)
  unfold Instance.Maps
  rw [hmapping]

theorem writeRangeLoop_written (mode : OobMode) (addr col fuel : ℕ) (data : List UInt8) {w : World}
    (hsound : w.ni.lower.Sound) (hcount : w.ni.dataBlockCount < 2 ^ 32)
    (hinside : addr + col + data.length ≤ w.ni.dataBlockCount * w.ni.erasesize)
    (hunique : ∀ lb lb' pb, w.ni.Maps lb pb → w.ni.Maps lb' pb → lb = lb')
    (haligned : addr % w.ni.writesize = 0) (hcol : col < w.ni.writesize)
    (hend : (col + data.length) % w.ni.writesize = 0) (hfuel : data.length ≤ fuel)
    (hret : (writeRangeLoop mode (addr + col) fuel data w).1.1 = 0) :
    (writeRangeLoop mode (addr + col) fuel data w).2.ni.core = w.ni.core ∧
      (∀ k < pageCount w.ni.writesize col data.length,
        (logicalPage (writeRangeLoop mode (addr + col) fuel data w).2
          (addr + k * w.ni.writesize)).data = page 0xff w.ni.writesize col data k) ∧
      ∀ a pb, w.ni.Maps (a / w.ni.erasesize) pb → a < addr ∨
          addr + pageCount w.ni.writesize col data.length * w.ni.writesize ≤ a →
        logicalPage (writeRangeLoop mode (addr + col) fuel data w).2 a = logicalPage w a := by
  induction fuel generalizing addr col data w with
  | zero =>
      obtain rfl : data = [] := List.length_eq_zero_iff.mp (by omega)
      exact ⟨rfl, by simp, fun _ _ _ _ => rfl⟩
  | succ fuel ih =>
      rcases Nat.eq_zero_or_pos data.length with hzero | hdata
      · obtain rfl : data = [] := List.length_eq_zero_iff.mp hzero
        exact ⟨rfl, by simp, fun _ _ _ _ => rfl⟩
      obtain ⟨w₁, hsame, -, hrun⟩ := writeRangeLoop_first mode fuel haligned hcol hend hdata
      rw [hrun] at hret ⊢
      dsimp only at hret ⊢
      split at hret
      case isTrue hfailed => exact absurd hret hfailed
      case isFalse hwritten =>
          rw [if_neg hwritten]
          have hes : w₁.ni.erasesize = w.ni.erasesize := (congrArg Instance.erasesize hsame.core :)
          have hlt : addr / w₁.ni.erasesize < 2 ^ 32 := by
            have hpos : 0 < w.ni.erasesize := hsound.erasesize_pos
            rw [hes]
            have : addr / w.ni.erasesize < w.ni.dataBlockCount :=
              (Nat.div_lt_iff_lt_mul hpos).mpr (by omega)
            omega
          obtain ⟨hni, ⟨pb, hmaps⟩, hfirst, hother⟩ := nmbmWriteLogicPage_success
            (hsame.lower ▸ hsound) hlt
            (fun lb lb' pb h h' => hunique lb lb' pb ((Instance.maps_core hsame.core lb pb).mp h)
              ((Instance.maps_core hsame.core lb' pb).mp h')) (not_not.mp hwritten)
          generalize (nmbmWriteLogicPage addr (some (page 0xff w.ni.writesize col data 0)) none
            mode w₁).2 = w₂ at *
          have hcore : w₂.ni.core = w.ni.core := (congrArg Instance.core hni).trans hsame.core
          have hws : w₂.ni.writesize = w.ni.writesize := (congrArg Instance.writesize hcore :)
          have hes₂ : w₂.ni.erasesize = w.ni.erasesize := (congrArg Instance.erasesize hcore :)
          have hblocks : w₂.ni.dataBlockCount = w.ni.dataBlockCount :=
            (congrArg Instance.dataBlockCount hcore :)
          obtain ⟨hreach, hrest⟩ := rest_ends hcol hdata hend
          have hlen : (data.drop (w.ni.writesize - col)).length =
              data.length - (w.ni.writesize - col) := List.length_drop
          obtain ⟨hcore', hpages, hothers⟩ := ih (addr + w.ni.writesize) 0
            (data.drop (w.ni.writesize - col))
            ((congrArg Instance.lower hcore :) ▸ hsound) (hblocks ▸ hcount)
            (by rw [hblocks, hes₂, hlen]; omega)
            (fun lb lb' pb h h' => hunique lb lb' pb ((Instance.maps_core hcore lb pb).mp h)
              ((Instance.maps_core hcore lb' pb).mp h'))
            (by rw [hws, Nat.add_mod_right, haligned]) (by omega) (by rw [hws, hlen]; exact hrest)
            (by omega) hret
          rw [hws, hlen] at hpages hothers
          rw [hes₂] at hothers
          rw [pageCount_succ hdata hcol]
          refine ⟨hcore'.trans hcore, fun k hk => ?_, fun a pb' hmaps' hout => ?_⟩
          · cases k with
            | zero =>
                rw [hes] at hmaps
                have hkept := hothers addr pb ((Instance.maps_core
                  (congrArg Instance.core hni) _ _).mpr hmaps) (.inl (by omega))
                rw [Nat.zero_mul, Nat.add_zero]
                exact (congrArg Page.data hkept).trans hfirst
            | succ k =>
                rw [page_succ hcol.le, Nat.succ_mul, Nat.add_comm (k * w.ni.writesize),
                  ← Nat.add_assoc]
                exact hpages k (by omega)
          · rw [Nat.succ_mul] at hout
            have hpage : a / w₁.ni.writesize ≠ addr / w₁.ni.writesize := by
              rw [hsame.writesize]
              intro heq
              have ha := Nat.div_add_mod a w.ni.writesize
              have haddr := Nat.div_add_mod addr w.ni.writesize
              have hmod := Nat.mod_lt a (by omega : w.ni.writesize > 0)
              rw [heq] at ha
              omega
            have hmaps₁ := (Instance.maps_core hsame.core _ _).mpr hmaps'
            have hkept := hothers a pb' ((Instance.maps_core hcore _ _).mpr hmaps') (by omega)
            rw [← hsame.logicalPage, ← hother a pb' (by rw [hes]; exact hmaps₁) hpage]
            exact hkept

theorem logicalBytes_row {w : World} {addr col count : ℕ} {data : List UInt8}
    (hsound : w.ni.lower.Sound) (haligned : addr % w.ni.writesize = 0)
    (hpages : ∀ k < count, (logicalPage w (addr + k * w.ni.writesize)).data =
      page 0xff w.ni.writesize col data k) :
    logicalBytes w addr (count * w.ni.writesize) =
        (List.range (count * w.ni.writesize)).map (entry 0xff col data) ∧
      FullPages w addr (count * w.ni.writesize) := by
  have hws : 0 < w.ni.writesize := hsound.writesize_pos
  have hposition : ∀ p < count * w.ni.writesize, logicalPage w (addr + p) =
      logicalPage w (addr + p / w.ni.writesize * w.ni.writesize) := by
    intro p hp
    have hsplit : addr + p =
        addr + p / w.ni.writesize * w.ni.writesize + p % w.ni.writesize := by
      have := Nat.div_add_mod' p w.ni.writesize
      omega
    have hstart : (addr + p / w.ni.writesize * w.ni.writesize) % w.ni.writesize = 0 := by
      rw [Nat.add_mul_mod_self_right, haligned]
    rw [hsplit]
    exact logicalPage_same hsound (by rw [hstart, Nat.zero_add]; exact Nat.mod_lt p hws)
  have hpage : ∀ p < count * w.ni.writesize,
      (logicalPage w (addr + p)).data = page 0xff w.ni.writesize col data (p / w.ni.writesize) :=
    fun p hp => (congrArg Page.data (hposition p hp)).trans
      (hpages _ ((Nat.div_lt_iff_lt_mul hws).mpr hp))
  constructor
  · unfold logicalBytes
    rw [List.range'_eq_map_range, List.map_map]
    apply List.map_congr_left
    intro p hp
    have hi : p % w.ni.writesize < w.ni.writesize := Nat.mod_lt p hws
    have hcolumn : (addr + p) % w.ni.writesize = p % w.ni.writesize := by
      rw [Nat.add_mod, haligned, Nat.zero_add, Nat.mod_mod]
    simp only [Function.comp_apply, logicalByte]
    rw [hpage p (List.mem_range.mp hp), hcolumn, List.getD_eq_getElem?_getD, getElem?_page hi,
      Nat.div_add_mod']
    rfl
  · intro a hlo hhi
    have hlen := hpage (a - addr) (by omega)
    rw [show addr + (a - addr) = a by omega] at hlen
    rw [hlen, length_page]

/-! ## `nmbm_mtd_write_data` -/

theorem fillCache_eq {cache bytes : List UInt8} {base size off : ℕ} (hbase : base ≤ cache.length)
    (hfit : off + bytes.length ≤ size) :
    fillCache cache base size off bytes = cache.take base ++
      (List.replicate off 0xff ++ bytes ++ List.replicate (size - off - bytes.length) 0xff) ++
      cache.drop (base + size) := by
  have hfirst : overwrite cache base (List.replicate off 0xff) =
      cache.take base ++ List.replicate off 0xff ++ cache.drop (base + off) := by
    simp [overwrite]
  have hsecond : overwrite (overwrite cache base (List.replicate off 0xff)) (base + off) bytes =
      cache.take base ++ List.replicate off 0xff ++ bytes ++
        cache.drop (base + off + bytes.length) := by
    rw [hfirst, overwrite, List.take_left' (by simp [hbase]), List.drop_append,
      List.drop_eq_nil_of_le (by simp; omega), List.drop_drop]
    simp [hbase]
  simp only [fillCache]
  rw [hsecond, overwrite, List.take_left' (by simp [hbase]; omega), List.drop_append,
    List.drop_eq_nil_of_le (by simp; omega), List.drop_drop, List.length_replicate]
  simp [hbase, List.append_assoc]
  omega

theorem slice_fillCache {cache buf : List UInt8} {base room size start pos len : ℕ}
    (hbase : base ≤ cache.length) (hstart : start ≤ room) (hroom : room ≤ size)
    (hbuf : pos + len ≤ buf.length) :
    slice (fillCache cache base size start (slice buf pos (min (room - start) len))) base room =
      page 0xff room start (slice buf pos len) 0 := by
  have hchunk : (slice buf pos (min (room - start) len)).length = min (room - start) len := by
    rw [length_slice]
    omega
  rw [fillCache_eq hbase (by rw [hchunk]; omega), page_zero hstart, take_slice, hchunk,
    length_slice]
  generalize slice buf pos (min (room - start) len) = chunk at hchunk ⊢
  rw [slice, List.append_assoc, List.drop_left' (by simp [hbase]), List.append_assoc,
    List.take_append, List.take_of_length_le (by simp [hchunk]; omega),
    List.take_append_of_le_length (by simp [hchunk]; omega), List.take_replicate]
  congr 2
  simp [hchunk]
  omega

theorem fillCache_before {cache bytes : List UInt8} {base size off : ℕ}
    (hbase : base ≤ cache.length) (hfit : off + bytes.length ≤ size) :
    slice (fillCache cache base size off bytes) 0 base = slice cache 0 base ∧
      base + size ≤ (fillCache cache base size off bytes).length := by
  rw [fillCache_eq hbase hfit]
  constructor
  · rw [slice, slice, List.drop_zero, List.drop_zero, List.append_assoc,
      List.take_append_of_le_length (by simp [hbase]), List.take_take, Nat.min_self]
  · simp [hbase]
    omega

def WriteCursor.dataLeft (c : WriteCursor) (ops : OobOps) : List UInt8 :=
  slice (ops.datbuf.getD []) c.retlen c.len

def WriteCursor.oobLeft (c : WriteCursor) (ops : OobOps) : List UInt8 :=
  slice (ops.oobbuf.getD []) c.oobretlen c.ooblen

@[simp] theorem WriteCursor.moveData_other (c : WriteCursor) (ni : Instance) (ops : OobOps) :
    (c.moveData ni ops).addr = c.addr ∧ (c.moveData ni ops).ooboffs = c.ooboffs ∧
      (c.moveData ni ops).ooblen = c.ooblen ∧ (c.moveData ni ops).oobretlen = c.oobretlen := by
  rw [WriteCursor.moveData]
  split <;> simp

@[simp] theorem WriteCursor.moveOob_other (c : WriteCursor) (ni : Instance) (maxooblen : ℕ)
    (ops : OobOps) :
    (c.moveOob ni maxooblen ops).addr = c.addr ∧ (c.moveOob ni maxooblen ops).col = c.col ∧
      (c.moveOob ni maxooblen ops).len = c.len ∧
      (c.moveOob ni maxooblen ops).retlen = c.retlen := by
  rw [WriteCursor.moveOob]
  split <;> simp

theorem WriteCursor.moveData_none {c : WriteCursor} (ni : Instance) (ops : OobOps)
    (h : c.len = 0) : c.moveData ni ops = c := by
  rw [WriteCursor.moveData, if_pos h]

theorem WriteCursor.moveOob_none {c : WriteCursor} (ni : Instance) (maxooblen : ℕ) (ops : OobOps)
    (h : c.ooblen = 0) : c.moveOob ni maxooblen ops = c := by
  rw [WriteCursor.moveOob, if_pos h]

theorem WriteCursor.moveData_result {c : WriteCursor} {ni : Instance} {ops : OobOps}
    (hlen : 0 < c.len) (hcol : c.col < ni.writesize)
    (hbuf : c.retlen + c.len ≤ (ops.datbuf.getD []).length) :
    slice (c.moveData ni ops).cache 0 ni.writesize =
        page 0xff ni.writesize c.col (c.dataLeft ops) 0 ∧
      ni.writesize ≤ (c.moveData ni ops).cache.length ∧
      (∀ k, page 0xff ni.writesize (c.moveData ni ops).col ((c.moveData ni ops).dataLeft ops) k =
        page 0xff ni.writesize c.col (c.dataLeft ops) (k + 1)) ∧
      pageCount ni.writesize c.col c.len =
        pageCount ni.writesize (c.moveData ni ops).col (c.moveData ni ops).len + 1 ∧
      (c.moveData ni ops).col < ni.writesize ∧ (c.moveData ni ops).len < c.len ∧
      (c.moveData ni ops).retlen + (c.moveData ni ops).len = c.retlen + c.len := by
  have hchunk : (slice (ops.datbuf.getD []) c.retlen (min (ni.writesize - c.col) c.len)).length =
      min (ni.writesize - c.col) c.len := by
    rw [length_slice]
    omega
  have hbefore := fillCache_before (Nat.zero_le c.cache.length)
    (by rw [hchunk]; omega : c.col + (slice (ops.datbuf.getD []) c.retlen
      (min (ni.writesize - c.col) c.len)).length ≤ ni.writesize)
  have hrest : c.len - (ni.writesize - c.col) = c.len - min (ni.writesize - c.col) c.len := by
    omega
  unfold WriteCursor.dataLeft
  rw [WriteCursor.moveData, if_neg hlen.ne']
  refine ⟨slice_fillCache (Nat.zero_le _) hcol.le le_rfl hbuf, ?_, fun k => ?_, ?_, ?_, ?_, ?_⟩
  · exact (Nat.zero_add _).symm.trans_le hbefore.2
  · rw [page_succ hcol.le, drop_slice]
  · rw [pageCount_succ hlen hcol, hrest]
  all_goals
    simp only
    omega

theorem WriteCursor.moveOob_result {c : WriteCursor} {ni : Instance} {maxooblen : ℕ} {ops : OobOps}
    (hlen : 0 < c.ooblen) (hoffs : c.ooboffs < maxooblen) (hmax : maxooblen ≤ ni.oobsize)
    (hbuf : c.oobretlen + c.ooblen ≤ (ops.oobbuf.getD []).length)
    (hcache : ni.writesize ≤ c.cache.length) :
    slice (c.moveOob ni maxooblen ops).cache ni.writesize maxooblen =
        page 0xff maxooblen c.ooboffs (c.oobLeft ops) 0 ∧
      slice (c.moveOob ni maxooblen ops).cache 0 ni.writesize = slice c.cache 0 ni.writesize ∧
      ni.writesize ≤ (c.moveOob ni maxooblen ops).cache.length ∧
      (∀ k, page 0xff maxooblen (c.moveOob ni maxooblen ops).ooboffs
          ((c.moveOob ni maxooblen ops).oobLeft ops) k =
        page 0xff maxooblen c.ooboffs (c.oobLeft ops) (k + 1)) ∧
      pageCount maxooblen c.ooboffs c.ooblen =
        pageCount maxooblen (c.moveOob ni maxooblen ops).ooboffs
          (c.moveOob ni maxooblen ops).ooblen + 1 ∧
      (c.moveOob ni maxooblen ops).ooboffs < maxooblen ∧
      (c.moveOob ni maxooblen ops).ooblen < c.ooblen ∧
      (c.moveOob ni maxooblen ops).oobretlen + (c.moveOob ni maxooblen ops).ooblen =
        c.oobretlen + c.ooblen := by
  have hchunk : (slice (ops.oobbuf.getD []) c.oobretlen
      (min (maxooblen - c.ooboffs) c.ooblen)).length = min (maxooblen - c.ooboffs) c.ooblen := by
    rw [length_slice]
    omega
  have hbefore := fillCache_before hcache
    (by rw [hchunk]; omega : c.ooboffs + (slice (ops.oobbuf.getD []) c.oobretlen
      (min (maxooblen - c.ooboffs) c.ooblen)).length ≤ ni.oobsize)
  have hrest : c.ooblen - (maxooblen - c.ooboffs) =
      c.ooblen - min (maxooblen - c.ooboffs) c.ooblen := by
    omega
  unfold WriteCursor.oobLeft
  rw [WriteCursor.moveOob, if_neg hlen.ne']
  refine ⟨slice_fillCache hcache hoffs.le hmax hbuf, hbefore.1, ?_, fun k => ?_, ?_, ?_, ?_, ?_⟩
  · exact (Nat.le_add_right _ _).trans hbefore.2
  · rw [page_succ hoffs.le, drop_slice]
  · rw [pageCount_succ hlen hoffs, hrest]
  all_goals
    simp only
    omega

/-- The cursor of a request whose main data and spare bytes, when both are
given, reach the same pages. -/
structure WriteCursor.Fits (c : WriteCursor) (ni : Instance) (maxooblen : ℕ) (ops : OobOps) :
    Prop where
  col_lt : c.col < ni.writesize
  offs_lt : c.ooboffs < maxooblen
  max_le : maxooblen ≤ ni.oobsize
  data_le : c.retlen + c.len ≤ (ops.datbuf.getD []).length
  oob_le : c.oobretlen + c.ooblen ≤ (ops.oobbuf.getD []).length
  cache_le : ni.writesize ≤ c.cache.length
  no_data : ops.len = 0 → c.len = 0
  no_oob : ops.ooblen = 0 → c.ooblen = 0
  balanced : ops.len ≠ 0 → ops.ooblen ≠ 0 →
    pageCount ni.writesize c.col c.len = pageCount maxooblen c.ooboffs c.ooblen

/-- The main data of the `k`-th page that is left, none when no data was given. -/
def WriteCursor.content (c : WriteCursor) (writesize : ℕ) (ops : OobOps) (k : ℕ) :
    Option (List UInt8) :=
  if ops.len = 0 then none else some (page 0xff writesize c.col (c.dataLeft ops) k)

/-- The spare bytes of the `k`-th page that is left. -/
def WriteCursor.spare (c : WriteCursor) (maxooblen : ℕ) (ops : OobOps) (k : ℕ) :
    Option (List UInt8) :=
  if ops.ooblen = 0 then none else some (page 0xff maxooblen c.ooboffs (c.oobLeft ops) k)

def WriteCursor.programs (c : WriteCursor) (writesize maxooblen : ℕ) (ops : OobOps) :
    List PageProgram :=
  rowPrograms writesize c.addr (c.content writesize ops) (c.spare maxooblen ops)
    (max (pageCount writesize c.col c.len) (pageCount maxooblen c.ooboffs c.ooblen))

section Fits

variable {c : WriteCursor} {ni : Instance} {maxooblen : ℕ} {ops : OobOps}

theorem WriteCursor.Fits.data_pos (h : c.Fits ni maxooblen ops)
    (hlive : ¬(c.len = 0 ∧ c.ooblen = 0)) (hlen : ops.len ≠ 0) : 0 < c.len := by
  by_contra hnone
  have hzero : c.len = 0 := by omega
  have hoob : 0 < c.ooblen := by omega
  have hbalanced := h.balanced hlen (fun hno => hoob.ne' (h.no_oob hno))
  rw [hzero, pageCount_zero, pageCount_succ hoob h.offs_lt] at hbalanced
  cases hbalanced

theorem WriteCursor.Fits.oob_pos (h : c.Fits ni maxooblen ops)
    (hlive : ¬(c.len = 0 ∧ c.ooblen = 0)) (hlen : ops.ooblen ≠ 0) : 0 < c.ooblen := by
  by_contra hnone
  have hzero : c.ooblen = 0 := by omega
  have hdata : 0 < c.len := by omega
  have hbalanced := h.balanced (fun hno => hdata.ne' (h.no_data hno)) hlen
  rw [hzero, pageCount_zero, pageCount_succ hdata h.col_lt] at hbalanced
  cases hbalanced

theorem WriteCursor.Fits.data_round (h : c.Fits ni maxooblen ops)
    (hlive : ¬(c.len = 0 ∧ c.ooblen = 0)) :
    ni.writesize ≤ (c.moveData ni ops).cache.length ∧
      (c.moveData ni ops).datcache ni ops = c.content ni.writesize ops 0 ∧
      (∀ k, (c.moveData ni ops).content ni.writesize ops k = c.content ni.writesize ops (k + 1)) ∧
      pageCount ni.writesize c.col c.len = (if ops.len = 0 then 0 else
        pageCount ni.writesize (c.moveData ni ops).col (c.moveData ni ops).len + 1) ∧
      (c.moveData ni ops).col < ni.writesize ∧
      (if ops.len = 0 then (c.moveData ni ops).len = 0 else (c.moveData ni ops).len < c.len) ∧
      (c.moveData ni ops).retlen + (c.moveData ni ops).len ≤ (ops.datbuf.getD []).length := by
  unfold WriteCursor.content WriteCursor.datcache
  by_cases hlen : ops.len = 0
  · simp only [WriteCursor.moveData_none ni ops (h.no_data hlen), hlen, if_true, h.no_data hlen]
    exact ⟨h.cache_le, trivial, fun _ => trivial, pageCount_zero, h.col_lt, trivial,
      by simpa [h.no_data hlen] using h.data_le⟩
  · obtain ⟨hpage, hcache, hpages, hcount, hcol, hless, hsum⟩ :=
      WriteCursor.moveData_result (h.data_pos hlive hlen) h.col_lt h.data_le
    simp only [if_neg hlen, hpage, hpages]
    exact ⟨hcache, trivial, fun _ => trivial, hcount, hcol, hless, hsum.trans_le h.data_le⟩

theorem WriteCursor.Fits.oob_round (h : c.Fits ni maxooblen ops)
    (hlive : ¬(c.len = 0 ∧ c.ooblen = 0)) {c₁ : WriteCursor}
    (hsame : c₁.ooboffs = c.ooboffs ∧ c₁.ooblen = c.ooblen ∧ c₁.oobretlen = c.oobretlen)
    (hcache : ni.writesize ≤ c₁.cache.length) :
    ni.writesize ≤ (c₁.moveOob ni maxooblen ops).cache.length ∧
      (c₁.moveOob ni maxooblen ops).datcache ni ops = c₁.datcache ni ops ∧
      (c₁.moveOob ni maxooblen ops).oobcache ni maxooblen ops = c.spare maxooblen ops 0 ∧
      (∀ k, (c₁.moveOob ni maxooblen ops).spare maxooblen ops k = c.spare maxooblen ops (k + 1)) ∧
      pageCount maxooblen c.ooboffs c.ooblen = (if ops.ooblen = 0 then 0 else
        pageCount maxooblen (c₁.moveOob ni maxooblen ops).ooboffs
          (c₁.moveOob ni maxooblen ops).ooblen + 1) ∧
      (c₁.moveOob ni maxooblen ops).ooboffs < maxooblen ∧
      (if ops.ooblen = 0 then (c₁.moveOob ni maxooblen ops).ooblen = 0
        else (c₁.moveOob ni maxooblen ops).ooblen < c.ooblen) ∧
      (c₁.moveOob ni maxooblen ops).oobretlen + (c₁.moveOob ni maxooblen ops).ooblen ≤
        (ops.oobbuf.getD []).length := by
  obtain ⟨hoffs, hooblen, hretlen⟩ := hsame
  have hleft : c.oobLeft ops = c₁.oobLeft ops := by
    rw [WriteCursor.oobLeft, WriteCursor.oobLeft, hooblen, hretlen]
  unfold WriteCursor.spare WriteCursor.oobcache WriteCursor.datcache
  rw [hleft, ← hoffs, ← hooblen]
  have hle := h.oob_le
  have hlt := h.offs_lt
  rw [← hretlen, ← hooblen] at hle
  rw [← hoffs] at hlt
  by_cases hlen : ops.ooblen = 0
  · have hnone : c₁.ooblen = 0 := hooblen.trans (h.no_oob hlen)
    simp only [WriteCursor.moveOob_none ni maxooblen ops hnone, hlen, if_true, hnone]
    exact ⟨hcache, trivial, trivial, fun _ => trivial, pageCount_zero, hlt, trivial,
      by simpa [hnone] using hle⟩
  · have hpos : 0 < c₁.ooblen := by
      rw [hooblen]
      exact h.oob_pos hlive hlen
    obtain ⟨hpage, hbefore, hcache', hpages, hcount, hoffs', hless, hsum⟩ :=
      WriteCursor.moveOob_result hpos hlt h.max_le hle hcache
    simp only [if_neg hlen, hpage, hpages, hbefore]
    exact ⟨hcache', trivial, trivial, fun _ => trivial, hcount, hoffs', hless, hsum.trans_le hle⟩

theorem WriteCursor.Fits.first (h : c.Fits ni maxooblen ops)
    (hlive : ¬(c.len = 0 ∧ c.ooblen = 0)) :
    ∃ c' : WriteCursor, (c.moveData ni ops).moveOob ni maxooblen ops = c' ∧
      c'.addr = c.addr ∧ c'.len + c'.ooblen < c.len + c.ooblen ∧
      ({ c' with addr := c.addr + ni.writesize } : WriteCursor).Fits ni maxooblen ops ∧
      c.programs ni.writesize maxooblen ops =
        ⟨c.addr, c'.datcache ni ops, c'.oobcache ni maxooblen ops⟩ ::
          ({ c' with addr := c.addr + ni.writesize } : WriteCursor).programs
            ni.writesize maxooblen ops := by
  obtain ⟨haddr₁, hoffs₁, hooblen₁, hretlen₁⟩ := c.moveData_other ni ops
  obtain ⟨hcache₁, hdata, hcontent, hdatacount, hcol, hlen, hdatabuf⟩ := h.data_round hlive
  obtain ⟨hcache, hkept, hoob, hspare, hoobcount, hoffs, hooblen, hoobbuf⟩ :=
    h.oob_round hlive ⟨hoffs₁, hooblen₁, hretlen₁⟩ hcache₁
  obtain ⟨haddr₂, hcol₂, hlen₂, hretlen₂⟩ :=
    (c.moveData ni ops).moveOob_other ni maxooblen ops
  generalize hc₁ : c.moveData ni ops = c₁ at *
  generalize hc₂ : c₁.moveOob ni maxooblen ops = c₂ at *
  have hcontent₂ : ∀ k, c₂.content ni.writesize ops k = c.content ni.writesize ops (k + 1) := by
    intro k
    rw [← hcontent k, WriteCursor.content, WriteCursor.content, WriteCursor.dataLeft,
      WriteCursor.dataLeft, hcol₂, hlen₂, hretlen₂]
  rw [← hcol₂, ← hlen₂] at hdatacount
  rw [← hcol₂] at hcol
  rw [← hlen₂] at hlen
  rw [← hretlen₂, ← hlen₂] at hdatabuf
  have hnodata := h.no_data
  have hnooob := h.no_oob
  refine ⟨c₂, rfl, haddr₂.trans haddr₁, ?_, ?_, ?_⟩
  · split_ifs at hlen hooblen <;> omega
  · refine ⟨hcol, hoffs, h.max_le, hdatabuf, hoobbuf, hcache, fun hno => ?_, fun hno => ?_,
      fun hyes hyes' => ?_⟩
    · rwa [if_pos hno] at hlen
    · rwa [if_pos hno] at hooblen
    · have hbalanced := h.balanced hyes hyes'
      rw [hdatacount, hoobcount, if_neg hyes, if_neg hyes'] at hbalanced
      exact Nat.succ_injective hbalanced
  · have hcount : max (pageCount ni.writesize c.col c.len)
        (pageCount maxooblen c.ooboffs c.ooblen) =
        max (pageCount ni.writesize c₂.col c₂.len)
          (pageCount maxooblen c₂.ooboffs c₂.ooblen) + 1 := by
      rw [hdatacount, hoobcount]
      split_ifs at hlen hooblen ⊢
      · omega
      · rw [hlen, pageCount_zero]
        omega
      · rw [hooblen, pageCount_zero]
        omega
      · omega
    unfold WriteCursor.programs
    rw [hcount, rowPrograms_succ, hkept, hdata, hoob]
    simp only [← hcontent₂, ← hspare]
    rfl

end Fits

theorem nmbmWriteSinglePage_accepted {addr : UInt64} {data oob : Option (List UInt8)}
    {mode : OobMode} {w : World} (hret : (nmbmWriteSinglePage addr data oob mode w).1 = 0) :
    addr.toNat < ba2addr w.ni w.ni.dataBlockCount ∧
      (nmbmWriteSinglePage addr data oob mode w).2.ni = w.ni := by
  unfold nmbmWriteSinglePage at hret ⊢
  rw [getNi_bind_run, ite_run] at hret ⊢
  split at hret
  · cases hret
  rename_i hunprotected
  rw [ite_run] at hret ⊢
  split at hret
  · cases hret
  rename_i hinside
  rw [if_neg hunprotected, if_neg hinside]
  exact ⟨not_le.mp hinside, nmbmWriteLogicPage_ni hret⟩

theorem LowerDevice.Sound.next_page_lt {ni : Instance} (hsound : ni.lower.Sound)
    (hcount : ni.dataBlockCount < 2 ^ 32) {addr : ℕ} (haddr : addr < ba2addr ni ni.dataBlockCount) :
    addr + ni.writesize < 2 ^ 64 := by
  have hpage : ni.writesize ≤ ni.erasesize := Nat.le_of_dvd hsound.erasesize_pos hsound.writesize_dvd
  rw [hsound.ba2addr_eq] at haddr
  calc addr + ni.writesize < ni.dataBlockCount * ni.erasesize + ni.erasesize := by omega
    _ = (ni.dataBlockCount + 1) * ni.erasesize := (Nat.succ_mul _ _).symm
    _ ≤ 2 ^ 32 * 2 ^ 32 := Nat.mul_le_mul hcount ni.lower.erasesize.toNat_lt.le
    _ = 2 ^ 64 := by norm_num

theorem mtdWriteLoop_issued {maxooblen fuel : ℕ} {c : WriteCursor} {ops : OobOps} {w : World}
    (h : c.Fits w.ni maxooblen ops) (hsound : w.ni.lower.Sound)
    (hcount : w.ni.dataBlockCount < 2 ^ 32) (haddr : c.addr < 2 ^ 64)
    (hfuel : c.len + c.ooblen ≤ fuel) :
    Issued (c.programs w.ni.writesize maxooblen ops) (mtdWriteLoop maxooblen ops fuel c w).1.1 w
      (mtdWriteLoop maxooblen ops fuel c w).2 := by
  have hdone : ∀ {c : WriteCursor}, c.len = 0 ∧ c.ooblen = 0 →
      c.programs w.ni.writesize maxooblen ops = [] := by
    intro c hc
    simp [WriteCursor.programs, hc.1, hc.2, rowPrograms]
  induction fuel generalizing c w with
  | zero =>
      rw [hdone (by omega)]
      exact Issued.nil rfl
  | succ fuel ih =>
      rw [mtdWriteLoop, ite_run]
      split
      case isTrue hend =>
          rw [hdone hend]
          exact Issued.nil rfl
      case isFalse hlive =>
          obtain ⟨c', hc', haddr', hless, hfits, hprograms⟩ := h.first hlive
          rw [getNi_bind_run, hc', bind_run, ite_run, haddr', hprograms]
          have hfirst := nmbmWriteSinglePage_issued haddr (c'.datcache w.ni ops)
            (c'.oobcache w.ni maxooblen ops) ops.mode w
          split
          case isTrue hret => exact hfirst.stopped hret
          case isFalse hret =>
              refine hfirst.cons (not_not.mp hret) ?_
              obtain ⟨hinside, hni⟩ := nmbmWriteSinglePage_accepted (not_not.mp hret)
              rw [UInt64.toNat_ofNat', Nat.mod_eq_of_lt haddr] at hinside
              generalize (nmbmWriteSinglePage (UInt64.ofNat c.addr) (c'.datcache w.ni ops)
                (c'.oobcache w.ni maxooblen ops) ops.mode w).2 = w₁ at hni ⊢
              rw [← hni] at hfits hsound hcount hinside hdone ⊢
              exact ih hfits hsound hcount (hsound.next_page_lt hcount hinside) (by simp; omega)
                hdone

theorem nmbmMtdWriteData_issued {nm : NmbmMtd} {start : UInt64} {ops : OobOps} {w : World}
    (hsound : w.ni.lower.Sound) (hcount : w.ni.dataBlockCount < 2 ^ 32)
    (h : (⟨pageAddress w.ni start, pageColumn w.ni start, ops.ooboffs, ops.len, ops.ooblen, 0, 0,
      nm.pageCache⟩ : WriteCursor).Fits w.ni (mtdOobavail nm w.ni ops) ops) :
    Issued ((⟨pageAddress w.ni start, pageColumn w.ni start, ops.ooboffs, ops.len, ops.ooblen, 0,
        0, nm.pageCache⟩ : WriteCursor).programs w.ni.writesize (mtdOobavail nm w.ni ops) ops)
      (nmbmMtdWriteData nm start ops w).1.1 w (nmbmMtdWriteData nm start ops w).2 := by
  rw [nmbmMtdWriteData, getNi_bind_run]
  refine mtdWriteLoop_issued h hsound hcount ?_ le_rfl
  have := Nat.mod_lt start.toNat (by norm_num : 2 ^ 32 > 0)
  simp only [pageAddress]
  omega

/-! ## Padding -/

theorem Issued.refused {ps : List PageProgram} {ret : ℤ} {w : World} (hret : ret ≠ 0) :
    Issued ps ret w w :=
  ⟨⟨0, by simp⟩, fun hzero => absurd hzero hret⟩

section Padding

variable {addr : UInt64} {data : List UInt8} {mode : OobMode} {w : World}

theorem nmbmWriteRange_issued (hsound : w.ni.lower.Sound)
    (hend : (addr.toNat + data.length) % w.ni.writesize = 0) :
    Issued (dataPrograms w.ni.writesize (addr.toNat - addr.toNat % w.ni.writesize)
        (addr.toNat % w.ni.writesize) data)
      (nmbmWriteRange addr data mode w).1.1 w (nmbmWriteRange addr data mode w).2 := by
  have hrofs : -erofs ≠ 0 := by decide
  have hinval : -einval ≠ 0 := by decide
  rw [nmbmWriteRange, getNi_bind_run, ite_run, ite_run, ite_run]
  split
  · exact Issued.refused hrofs
  split
  · exact Issued.refused hinval
  split
  · exact Issued.refused hinval
  have hsplit : addr.toNat - addr.toNat % w.ni.writesize + addr.toNat % w.ni.writesize =
      addr.toNat := Nat.sub_add_cancel (Nat.mod_le _ _)
  have hloop := writeRangeLoop_issued mode
    (addr.toNat - addr.toNat % w.ni.writesize) (addr.toNat % w.ni.writesize) data.length data
    (Nat.sub_mod_eq_zero_of_mod_eq (Nat.mod_mod _ _).symm) (Nat.mod_lt _ hsound.writesize_pos)
    (by rw [Nat.mod_add_mod]; exact hend) le_rfl
  rw [hsplit] at hloop
  exact hloop

theorem nmbmMtdWriteData_padded {nm : NmbmMtd} {ops : OobOps} (hsound : w.ni.lower.Sound)
    (hcount : w.ni.dataBlockCount < 2 ^ 32) (hcache : w.ni.writesize ≤ nm.pageCache.length)
    (hmax : mtdOobavail nm w.ni ops ≤ w.ni.oobsize)
    (hoffs : ops.ooboffs < mtdOobavail nm w.ni ops) (hlen : ops.len = data.length)
    (hooblen : ops.ooblen = 0) (hdatbuf : ops.datbuf = some data) :
    Issued (dataPrograms w.ni.writesize (pageAddress w.ni addr) (addr.toNat % w.ni.writesize) data)
      (nmbmMtdWriteData nm addr ops w).1.1 w (nmbmMtdWriteData nm addr ops w).2 := by
  have hprograms : (⟨pageAddress w.ni addr, pageColumn w.ni addr, ops.ooboffs, ops.len, ops.ooblen,
      0, 0, nm.pageCache⟩ : WriteCursor).programs w.ni.writesize (mtdOobavail nm w.ni ops) ops =
      dataPrograms w.ni.writesize (pageAddress w.ni addr) (addr.toNat % w.ni.writesize) data := by
    unfold WriteCursor.programs dataPrograms
    simp only [hooblen, pageCount_zero, Nat.max_zero, hlen]
    apply rowPrograms_congr
    intro k hk
    have hdata : data.length ≠ 0 := by
      rintro hzero
      rw [hzero, pageCount_zero] at hk
      omega
    simp [WriteCursor.content, WriteCursor.spare, WriteCursor.dataLeft, slice, hdatbuf, hlen, hdata,
      hooblen, pageColumn]
  rw [← hprograms]
  exact nmbmMtdWriteData_issued hsound hcount
    ⟨Nat.mod_lt _ hsound.writesize_pos, hoffs, hmax, by simp [hdatbuf, hlen], by simp [hooblen],
      hcache, id, id, fun _ hoob => absurd hooblen hoob⟩

theorem nmbmWriteRange_loop (hret : (nmbmWriteRange addr data mode w).1.1 = 0) :
    (nmbmWriteRange addr data mode w).2 =
        (writeRangeLoop mode addr.toNat data.length data w).2 ∧
      (writeRangeLoop mode addr.toNat data.length data w).1.1 = 0 := by
  rw [nmbmWriteRange, getNi_bind_run, ite_run, ite_run, ite_run] at hret ⊢
  split at hret
  · cases hret
  split at hret
  · cases hret
  split at hret
  · cases hret
  rename_i h h' h''
  rw [if_neg h, if_neg h', if_neg h'']
  exact ⟨rfl, hret⟩

theorem pageCount_exact {size start len : ℕ} (hsize : 0 < size) (hlen : 0 < len)
    (hend : (start + len) % size = 0) : pageCount size start len * size = start + len := by
  obtain ⟨hle, hlt⟩ := pageCount_bounds hlen hsize
  obtain ⟨count, hcount⟩ := Nat.dvd_of_mod_eq_zero hend
  rw [hcount] at hle hlt ⊢
  rw [Nat.mul_comm size count] at hle hlt ⊢
  have h₁ := Nat.le_of_mul_le_mul_right hle hsize
  have h₂ : pageCount size start len < count + 1 :=
    Nat.lt_of_mul_lt_mul_right (a := size) (by rw [Nat.succ_mul]; exact hlt)
  rw [show pageCount size start len = count by omega]

/-- After a write that succeeded, reading the pages that it covers delivers the
data and 0xff around it. -/
theorem nmbmWriteRange_readback (hsound : w.ni.lower.Sound)
    (hcount : w.ni.dataBlockCount < 2 ^ 32)
    (hinside : addr.toNat + data.length ≤ w.ni.dataBlockCount * w.ni.erasesize)
    (hunique : ∀ lb lb' pb, w.ni.Maps lb pb → w.ni.Maps lb' pb → lb = lb')
    (hend : (addr.toNat + data.length) % w.ni.writesize = 0)
    (hret : (nmbmWriteRange addr data mode w).1.1 = 0) {base size : UInt64}
    (hbase : base.toNat = addr.toNat - addr.toNat % w.ni.writesize)
    (hsize : size.toNat =
      pageCount w.ni.writesize (addr.toNat % w.ni.writesize) data.length * w.ni.writesize)
    (hread : (nmbmReadRange base size (nmbmWriteRange addr data mode w).2).1.1 = 0) :
    (nmbmReadRange base size (nmbmWriteRange addr data mode w).2).1.2 =
      (List.range size.toNat).map (entry 0xff (addr.toNat % w.ni.writesize) data) := by
  have hws : 0 < w.ni.writesize := hsound.writesize_pos
  have hsplit : addr.toNat - addr.toNat % w.ni.writesize + addr.toNat % w.ni.writesize =
      addr.toNat := Nat.sub_add_cancel (Nat.mod_le _ _)
  have haligned : (addr.toNat - addr.toNat % w.ni.writesize) % w.ni.writesize = 0 :=
    Nat.sub_mod_eq_zero_of_mod_eq (Nat.mod_mod _ _).symm
  obtain ⟨hrun, hloop⟩ := nmbmWriteRange_loop hret
  rw [hrun] at hread ⊢
  rw [← hsplit] at hloop
  obtain ⟨hcore, hpages, -⟩ := writeRangeLoop_written mode
    (addr.toNat - addr.toNat % w.ni.writesize) (addr.toNat % w.ni.writesize) data.length data hsound
    hcount (by rw [hsplit]; exact hinside) hunique haligned (Nat.mod_lt _ hws)
    (by rw [Nat.mod_add_mod]; exact hend) le_rfl hloop
  rw [hsplit] at hcore hpages
  generalize (writeRangeLoop mode addr.toNat data.length data w).2 = w' at hcore hpages hread ⊢
  have hws' : w'.ni.writesize = w.ni.writesize := (congrArg Instance.writesize hcore :)
  have hes' : w'.ni.erasesize = w.ni.erasesize := (congrArg Instance.erasesize hcore :)
  have hcount' : w'.ni.dataBlockCount = w.ni.dataBlockCount :=
    (congrArg Instance.dataBlockCount hcore :)
  have hsound' : w'.ni.lower.Sound := (congrArg Instance.lower hcore :) ▸ hsound
  rw [← hbase] at hpages haligned
  rw [← hws'] at hpages haligned hsize hend ⊢
  obtain ⟨hbytes, hfull⟩ := logicalBytes_row hsound' haligned hpages
  rw [← hsize] at hbytes hfull
  have hcovered : base.toNat + size.toNat ≤ w'.ni.dataBlockCount * w'.ni.erasesize := by
    rw [hcount', hes']
    rcases Nat.eq_zero_or_pos data.length with hzero | hdata
    · rw [hzero, pageCount_zero, Nat.zero_mul] at hsize
      omega
    · rw [pageCount_exact (hws' ▸ hws) hdata (by rw [Nat.mod_add_mod]; exact hend), hws'] at hsize
      omega
  obtain ⟨hresult, hall⟩ := nmbmReadRange_result hsound' (hcount' ▸ hcount) hcovered hfull
  rw [hresult, readableBytes_all (hws' ▸ hws) (hall hread), hbytes]

end Padding

theorem numberedWorld_unique (nld : LowerDevice) (lb lb' pb : ℕ)
    (h : (numberedWorld nld).ni.Maps lb pb) (h' : (numberedWorld nld).ni.Maps lb' pb) :
    lb = lb' := by
  have hmaps : ∀ {lb : ℕ}, (numberedWorld nld).ni.Maps lb pb → lb = pb := by
    intro lb h
    have hget : ((List.range 12).map Int.ofNat)[lb]? = some (pb : ℤ) := h
    rw [List.getElem?_map, Option.map_eq_some_iff] at hget
    obtain ⟨n, hn, hpb⟩ := hget
    obtain ⟨hlt, hn⟩ := List.getElem?_eq_some_iff.mp hn
    rw [List.getElem_range] at hn
    exact hn.trans (Int.ofNat_inj.mp hpb)
  rw [hmaps h, hmaps h']

/-- A write that ends inside a page programs what an earlier write has left in
the page cache: five bytes are written to block 0, then three to the erased
block 1, whose page is read back. -/
def staleWrite : Driver (ℤ × List UInt8) := do
  let _ ← nmbmWriteRange 0 [1, 2, 3, 4, 5] .placeOob
  let _ ← nmbmEraseBlockRange 256 256
  let _ ← nmbmWriteRange 256 [6, 7, 8] .placeOob
  nmbmReadRange 256 64

/-- The operations of a request: page `k` gets the `k`-th slice of the main data
and the `k`-th slice of the spare bytes, and nothing of a buffer that has been
used up. -/
def slicePrograms (writesize maxooblen start : ℕ) (ops : OobOps) : List PageProgram :=
  rowPrograms writesize (start - start % writesize)
    (fun k => if k < pageCount writesize (start % writesize) ops.len then
      some (page 0xff writesize (start % writesize) ((ops.datbuf.getD []).take ops.len) k)
      else none)
    (fun k => if k < pageCount maxooblen ops.ooboffs ops.ooblen then
      some (page 0xff maxooblen ops.ooboffs ((ops.oobbuf.getD []).take ops.ooblen) k)
      else none)
    (max (pageCount writesize (start % writesize) ops.len)
      (pageCount maxooblen ops.ooboffs ops.ooblen))

/-- Main data and spare bytes reach the same pages, or only one of them is given. -/
def SamePages (writesize maxooblen start : ℕ) (ops : OobOps) : Prop :=
  ops.len = 0 ∨ ops.ooblen = 0 ∨
    pageCount writesize (start % writesize) ops.len = pageCount maxooblen ops.ooboffs ops.ooblen

theorem slicePrograms_eq {ni : Instance} {start : UInt64} {ops : OobOps} {maxooblen : ℕ}
    {cache : List UInt8} (hsame : SamePages ni.writesize maxooblen start.toNat ops)
    (hstart : start.toNat < 2 ^ 32) :
    (⟨pageAddress ni start, pageColumn ni start, ops.ooboffs, ops.len, ops.ooblen, 0, 0,
      cache⟩ : WriteCursor).programs ni.writesize maxooblen ops =
      slicePrograms ni.writesize maxooblen start.toNat ops := by
  unfold slicePrograms WriteCursor.programs
  rw [pageAddress, pageColumn, Nat.mod_eq_of_lt hstart]
  apply rowPrograms_congr
  intro k hk
  simp only [WriteCursor.content, WriteCursor.spare, WriteCursor.dataLeft, WriteCursor.oobLeft,
    slice, List.drop_zero]
  by_cases hdata : ops.len = 0
  · rw [hdata, pageCount_zero, Nat.zero_max] at hk
    have hoob : ops.ooblen ≠ 0 := by
      rintro hzero
      rw [hzero, pageCount_zero] at hk
      omega
    rw [if_pos hdata, hdata, pageCount_zero, if_neg (Nat.not_lt_zero k), if_neg hoob, if_pos hk]
    exact ⟨rfl, rfl⟩
  by_cases hoob : ops.ooblen = 0
  · rw [hoob, pageCount_zero, Nat.max_zero] at hk
    rw [if_neg hdata, if_pos hk, if_pos hoob, hoob, pageCount_zero, if_neg (Nat.not_lt_zero k)]
    exact ⟨rfl, rfl⟩
  · have hcounts := (hsame.resolve_left hdata).resolve_left hoob
    rw [hcounts, Nat.max_self] at hk
    rw [if_neg hdata, if_neg hoob, hcounts, if_pos hk, if_pos hk]
    exact ⟨rfl, rfl⟩

def twoPages : OobOps :=
  ⟨.placeOob, 76, 32, 0, some (List.replicate 64 1 ++ List.replicate 12 2),
    some (List.replicate 16 3 ++ List.replicate 16 4)⟩

def smallMtd : NmbmMtd := ⟨3072, 8, List.replicate 80 0⟩

end Nwa50ax.Nmbm
