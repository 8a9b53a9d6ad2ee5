import Nwa50ax.Nmbm.Mgmt
import Nwa50ax.Nmbm.TableImage

/-!
# Loading a table that has been written

`nmbm_write_info_table` skips blocks that fail, `nmbm_try_load_info_table` only
looks at as many blocks as a table without gaps occupies.  A table that was
written without a gap is loaded again.
-/

namespace Nwa50ax.Nmbm

open ByteBuffer StateProgram

/-! ## Reading on a chip without read errors -/

def World.Reliable (w : World) : Prop :=
  ∀ tick, (w.pattern tick).ret = 0 ∧ (w.pattern tick).misreport = false

theorem nmbmReadPhysPage_reliable {w : World} (h : w.Reliable) (addr : ℕ) :
    (nmbmReadPhysPage addr w).1 = (0, w.flash.pages (blockOf w.ni addr) (pageOf w.ni addr)) ∧
      (nmbmReadPhysPage addr w).2.ni = w.ni := by
  have hret : (lowerReadPage addr w).1 =
      (0, w.flash.pages (blockOf w.ni addr) (pageOf w.ni addr)) := by
    simp [lowerReadPage, (h w.tick).1]
  unfold nmbmReadPhysPage
  cases nmbmTryCount - 1 with
  | zero => exact ⟨hret, rfl⟩
  | succ extra =>
      rw [tryTimes, bind_run, ite_run, if_pos (by rw [hret]), pure_run]
      exact ⟨hret, rfl⟩

theorem ReadStep.reliable {w w' : World} (h : ReadStep w w') (hreliable : w.Reliable) :
    w'.Reliable := by
  unfold World.Reliable
  rw [h.pattern]
  exact hreliable

theorem le_length_overwrite {buf bytes : List UInt8} {off : ℕ} (h : off ≤ buf.length) :
    buf.length ≤ (overwrite buf off bytes).length := by
  simp [overwrite]
  omega

@[simp] theorem readDataLoop_zero (off fuel : ℕ) (w : World) :
    readDataLoop off fuel 0 w = ((0, []), w) := by
  cases fuel <;> simp [readDataLoop]

theorem cachePage_result {c : Prop} [Decidable c] (data : List UInt8) {w w₁ : World}
    (hni : w₁.ni = w.ni) :
    ReadStep w₁ (StateProgram.when c (setPageCache (overwrite w.ni.pageCache 0 data)) w₁).2 ∧
      w.ni.pageCache.length ≤ (StateProgram.when c
        (setPageCache (overwrite w.ni.pageCache 0 data)) w₁).2.ni.pageCache.length := by
  rw [when_run]
  split
  · exact ⟨setPageCache_reads _ w₁, le_length_overwrite (Nat.zero_le _)⟩
  · exact ⟨Std.Refl.refl w₁, by rw [hni]⟩

theorem readDataLoop_reliable {ni : Instance} (ba pg fuel : ℕ) {size : ℕ} {w : World}
    (hlower : w.ni.lower = ni.lower) (hsound : ni.lower.Sound) (hreliable : w.Reliable)
    (hsize : pg * ni.writesize + size ≤ ni.erasesize) :
    (readDataLoop (ba2addr ni ba + pg * ni.writesize) fuel size w).1 =
        (0, pageBytes ni.writesize (w.flash.pages ba) fuel pg size) ∧
      w.ni.pageCache.length ≤
        (readDataLoop (ba2addr ni ba + pg * ni.writesize) fuel size w).2.ni.pageCache.length := by
  induction fuel generalizing pg size w with
  | zero => exact ⟨rfl, le_rfl⟩
  | succ fuel ih =>
      rw [readDataLoop, pageBytes, ite_run]
      split
      · exact ⟨rfl, le_rfl⟩
      rename_i hpos
      have hws : w.ni.writesize = ni.writesize := by
        rw [Instance.writesize, hlower]
        rfl
      have hlt : pg * ni.writesize < ni.erasesize := by omega
      have hblock : blockOf w.ni (ba2addr ni ba + pg * ni.writesize) = ba :=
        (blockOf_congr hlower _).trans (hsound.blockOf_ba2addr ba hlt)
      have hpage : pageOf w.ni (ba2addr ni ba + pg * ni.writesize) = pg :=
        (pageOf_congr hlower _).trans (hsound.pageOf_block ba hlt)
      obtain ⟨hread, hni⟩ :=
        nmbmReadPhysPage_reliable hreliable (ba2addr ni ba + pg * ni.writesize)
      have hstep := nmbmReadPhysPage_reads (ba2addr ni ba + pg * ni.writesize) w
      rw [hblock, hpage] at hread
      rw [getNi_bind_run, hws, hsound.page_aligned ba pg, Nat.sub_zero, Nat.sub_zero, bind_run,
        bind_run, hread, ite_run, if_neg (by simp), bind_run, pure_run]
      generalize nmbmReadPhysPage (ba2addr ni ba + pg * ni.writesize) w = r at hni hstep ⊢
      obtain ⟨hcache, hgrown⟩ := cachePage_result (c := min ni.writesize size ≠ ni.writesize)
        (w.flash.pages ba pg).data hni
      have hstep' : ReadStep w _ := IsTrans.trans _ _ _ hstep hcache
      generalize (StateProgram.when (min ni.writesize size ≠ ni.writesize)
        (setPageCache (overwrite w.ni.pageCache 0 (w.flash.pages ba pg).data)) r.2).2 = w₁
        at hgrown hstep' ⊢
      rw [slice, List.drop_zero]
      rcases Nat.le_total size ni.writesize with hshort | hlong
      · rw [Nat.min_eq_right hshort, Nat.sub_self, readDataLoop_zero, pageBytes_zero]
        exact ⟨rfl, hgrown⟩
      · have hnext : ba2addr ni ba + pg * ni.writesize + ni.writesize =
            ba2addr ni ba + (pg + 1) * ni.writesize := by rw [Nat.succ_mul, Nat.add_assoc]
        rw [Nat.min_eq_left hlong, hnext]
        obtain ⟨hrest, hgrown'⟩ := ih (pg + 1) (hstep'.lower.trans hlower)
          (hstep'.reliable hreliable)
          (by rw [Nat.succ_mul]; omega : (pg + 1) * ni.writesize + (size - ni.writesize) ≤ _)
        rw [hrest, hstep'.flash]
        exact ⟨rfl, hgrown.trans hgrown'⟩

theorem nmbnReadData_reliable (ba : ℕ) {size : ℕ} {w : World} (hsound : w.ni.lower.Sound)
    (hreliable : w.Reliable) (hsize : size ≤ w.ni.erasesize) :
    (nmbnReadData (ba2addr w.ni ba) size w).1 = (0, blockBytes w.ni w.flash ba size) ∧
      w.ni.pageCache.length ≤ (nmbnReadData (ba2addr w.ni ba) size w).2.ni.pageCache.length := by
  have hloop := readDataLoop_reliable ba 0 size rfl hsound hreliable
    (by omega : 0 * w.ni.writesize + size ≤ w.ni.erasesize)
  rw [Nat.zero_mul, Nat.add_zero] at hloop
  exact hloop

/-- The block carries no bad block mark: it is not reported, or, for a chip
without such a report, the first spare byte is blank. -/
def Unmarked (ni : Instance) (flash : Flash) (ba : ℕ) : Prop :=
  if ni.lower.hasIsBadBlock then flash.marked ba = false
  else (flash.pages ba 0).oob.head? = some 0xff

instance (ni : Instance) (flash : Flash) (ba : ℕ) : Decidable (Unmarked ni flash ba) :=
  inferInstanceAs (Decidable (if ni.lower.hasIsBadBlock then flash.marked ba = false
    else (flash.pages ba 0).oob.head? = some 0xff))

theorem nmbmCheckBadPhysBlock_reliable {ba : ℕ} {w : World} (hsound : w.ni.lower.Sound)
    (hreliable : w.Reliable) (hunmarked : Unmarked w.ni w.flash ba)
    (hcache : w.ni.writesize ≤ w.ni.pageCache.length) :
    (nmbmCheckBadPhysBlock ba w).1 = false ∧
      w.ni.pageCache.length ≤ (nmbmCheckBadPhysBlock ba w).2.ni.pageCache.length := by
  have hblock : blockOf w.ni (ba2addr w.ni ba) = ba :=
    hsound.blockOf_ba2addr ba hsound.erasesize_pos
  have hpage : pageOf w.ni (ba2addr w.ni ba) = 0 := by
    have hfirst : pageOf w.ni (ba2addr w.ni ba + 0 * w.ni.writesize) = 0 :=
      hsound.pageOf_block ba (by rw [Nat.zero_mul]; exact hsound.erasesize_pos)
    rwa [Nat.zero_mul] at hfirst
  unfold Unmarked at hunmarked
  rw [nmbmCheckBadPhysBlock, getNi_bind_run, ite_run]
  split at hunmarked
  case isTrue hquery =>
      rw [if_pos hquery]
      refine ⟨?_, le_rfl⟩
      simp [lowerIsBadBlock, hblock, hunmarked, (hreliable w.tick).2]
  case isFalse hquery =>
      obtain ⟨hread, hni⟩ := nmbmReadPhysPage_reliable hreliable (ba2addr w.ni ba)
      rw [hblock, hpage] at hread
      rw [if_neg hquery, bind_run, hread, bind_run, ite_run, if_neg (by simp), pure_run]
      refine ⟨?_, le_length_overwrite hcache⟩
      obtain ⟨rest, hoob⟩ := List.head?_eq_some_iff.mp hunmarked
      have hfirst : (overwrite w.ni.pageCache w.ni.writesize
          (w.flash.pages ba 0).oob)[w.ni.writesize]? = some 0xff := by
        rw [overwrite, hoob, List.append_assoc, List.getElem?_append_right (by simp)]
        simp [hcache]
      simp [hfirst]

/-! ## Reading a table without gaps -/

theorem Unmarked.congr {ni ni' : Instance} {flash flash' : Flash} {ba : ℕ}
    (h : Unmarked ni flash ba) (hlower : ni'.lower = ni.lower) (hflash : flash' = flash) :
    Unmarked ni' flash' ba := by
  unfold Unmarked
  rw [hlower, hflash]
  exact h

/-- The blocks `[ba, ba + count)` are good, carry no mark, and are read without
errors. -/
structure CleanBlocks (w : World) (ba count : ℕ) : Prop where
  sound : w.ni.lower.Sound
  reliable : w.Reliable
  good : ∀ b, ba ≤ b → b < ba + count → w.ni.Good b
  unmarked : ∀ b, ba ≤ b → b < ba + count → Unmarked w.ni w.flash b
  cache_le : w.ni.writesize ≤ w.ni.pageCache.length

theorem CleanBlocks.next {w w' : World} {ba count : ℕ} (h : CleanBlocks w ba (count + 1))
    (hstep : ReadStep w w') (hcache : w.ni.pageCache.length ≤ w'.ni.pageCache.length) :
    CleanBlocks w' (ba + 1) count where
  sound := hstep.lower ▸ h.sound
  reliable := hstep.reliable h.reliable
  good b hlo hhi :=
    ((hstep.chipStep (S := ∅)).good_iff b).mpr (h.good b (by omega) (by omega))
  unmarked b hlo hhi := (h.unmarked b (by omega) (by omega)).congr hstep.lower hstep.flash
  cache_le := by
    rw [Instance.writesize, hstep.lower]
    exact h.cache_le.trans hcache

theorem readTableLoop_clean {ba size count : ℕ} (data : List UInt8) (startBa : Option ℕ)
    {w : World} (h : CleanBlocks w ba count) (hsize : size ≤ count * w.ni.erasesize)
    (hneeded : 0 < count → (count - 1) * w.ni.erasesize < size)
    (hheader : startBa = none → 0 < count ∧ nmbmCheckInfoTableHeader w.ni
      (blockBytes w.ni w.flash ba (min size w.ni.erasesize)) = true) :
    (readTableLoop ba size data startBa count w).1 =
        some (startBa.getD ba, data ++ tableBytes w.ni w.flash (List.range' ba count) size) ∧
      ReadStep w (readTableLoop ba size data startBa count w).2 := by
  induction count generalizing ba size data startBa w with
  | zero =>
      obtain rfl : size = 0 := by omega
      cases startBa with
      | none => exact absurd (hheader rfl).1 (lt_irrefl 0)
      | some start =>
          simp only [readTableLoop, pure_run, List.range'_zero, tableBytes, List.append_nil]
          exact ⟨rfl, Std.Refl.refl w⟩
  | succ count ih =>
      have hpos : 0 < size := by
        have := hneeded (Nat.succ_pos count)
        omega
      have hgood : ¬nmbmGetBlockState w.ni ba ≠ blockStGood :=
        not_not.mpr (h.good ba le_rfl (by omega))
      obtain ⟨hunmarked, hcache₁⟩ := nmbmCheckBadPhysBlock_reliable h.sound h.reliable
        (h.unmarked ba le_rfl (by omega)) h.cache_le
      have hstep₁ := nmbmCheckBadPhysBlock_reads ba w
      rw [readTableLoop, getNi_bind_run, ite_run, if_neg hpos.ne', ite_run, if_neg hgood, bind_run,
        hunmarked, ite_run, if_neg Bool.false_ne_true, bind_run]
      generalize (nmbmCheckBadPhysBlock ba w).2 = w₁ at hcache₁ hstep₁ ⊢
      have haddr : ba2addr w₁.ni ba = ba2addr w.ni ba := by
        unfold ba2addr Instance.erasesizeShift Instance.erasesize
        rw [hstep₁.lower]
      have hes : w₁.ni.erasesize = w.ni.erasesize := by
        rw [Instance.erasesize, hstep₁.lower]
        rfl
      obtain ⟨hread, hcache₂⟩ := nmbnReadData_reliable ba (hstep₁.lower ▸ h.sound)
        (hstep₁.reliable h.reliable) (by omega : min size w.ni.erasesize ≤ w₁.ni.erasesize)
      rw [haddr, blockBytes_congr _ hstep₁.lower (congrFun (congrArg Flash.pages hstep₁.flash) ba)]
        at hread
      rw [haddr] at hcache₂
      have hstep₂ : ReadStep w (nmbnReadData (ba2addr w.ni ba) (min size w.ni.erasesize) w₁).2 :=
        IsTrans.trans _ _ _ hstep₁ (nmbnReadData_reads _ _ w₁)
      rw [hread, ite_run, if_neg (by simp), ite_run, if_neg (by simp), ite_run,
        if_neg (by rintro ⟨hnone, hfalse⟩; rw [(hheader hnone).2] at hfalse; cases hfalse)]
      generalize (nmbnReadData (ba2addr w.ni ba) (min size w.ni.erasesize) w₁).2 = w₂
        at hcache₂ hstep₂ ⊢
      have hes₂ : w₂.ni.erasesize = w.ni.erasesize := by
        rw [Instance.erasesize, hstep₂.lower]
        rfl
      have hrest : size - min size w.ni.erasesize ≤ count * w₂.ni.erasesize := by
        rw [Nat.succ_mul] at hsize
        rw [hes₂]
        omega
      have hneeded' : 0 < count → (count - 1) * w₂.ni.erasesize <
          size - min size w.ni.erasesize := by
        intro hcount
        have hlt := hneeded (Nat.succ_pos count)
        obtain ⟨k, rfl⟩ : ∃ k, count = k + 1 := ⟨count - 1, by omega⟩
        rw [hes₂]
        simp only [Nat.add_sub_cancel, Nat.succ_mul] at hlt ⊢
        omega
      obtain ⟨hresult, hstep₃⟩ := ih (data ++ blockBytes w.ni w.flash ba
          (min size w.ni.erasesize)) (some (startBa.getD ba))
          (h.next hstep₂ (hcache₁.trans hcache₂)) hrest hneeded'
          fun hnone => absurd hnone (Option.some_ne_none _)
      refine ⟨hresult.trans ?_, IsTrans.trans _ _ _ hstep₂ hstep₃⟩
      rw [tableBytes_congr _ hstep₂.lower (fun b _ => congrFun
        (congrArg Flash.pages hstep₂.flash) b), List.range'_succ, tableBytes, List.append_assoc]
      rfl

/-! ## Lengths -/

theorem length_pageBytes_le (writesize : ℕ) (pages : ℕ → Page) (fuel pg size : ℕ) :
    (pageBytes writesize pages fuel pg size).length ≤ size := by
  induction fuel generalizing pg size with
  | zero => exact Nat.zero_le size
  | succ fuel ih =>
      rw [pageBytes]
      split
      · exact Nat.zero_le size
      · have hrest := ih (pg + 1) (size - min writesize size)
        rw [List.length_append, List.length_take]
        omega

theorem length_tableBytes_le (ni : Instance) (flash : Flash) (blocks : List ℕ) (size : ℕ) :
    (tableBytes ni flash blocks size).length ≤ min size (blocks.length * ni.erasesize) := by
  induction blocks generalizing size with
  | nil => exact Nat.zero_le _
  | cons ba blocks ih =>
      have hfirst := length_pageBytes_le ni.writesize (flash.pages ba) (min size ni.erasesize) 0
        (min size ni.erasesize)
      have hrest := ih (size - min size ni.erasesize)
      rw [tableBytes, List.length_append, List.length_cons, Nat.succ_mul]
      change (blockBytes ni flash ba (min size ni.erasesize)).length ≤ _ at hfirst
      omega

theorem size2blk_eq {ni : Instance} (hsound : ni.lower.Sound) {size : ℕ} (hsize : size < 2 ^ 32) :
    size ≤ size2blk ni size * ni.erasesize ∧
      (0 < size → (size2blk ni size - 1) * ni.erasesize < size ∧ 0 < size2blk ni size) := by
  have hpos : 0 < ni.erasesize := hsound.erasesize_pos
  have heq : size2blk ni size = (size + ni.erasesize - 1) / ni.erasesize := by
    unfold size2blk Instance.erasesizeShift u32
    rw [Nat.shiftRight_eq_div_pow]
    unfold Instance.erasesize at hpos ⊢
    rw [← hsound.erasesize_eq]
    refine Nat.mod_eq_of_lt (Nat.div_lt_of_lt_mul ?_)
    omega
  have hdiv := Nat.div_add_mod (size + ni.erasesize - 1) ni.erasesize
  have hmod := Nat.mod_lt (size + ni.erasesize - 1) hpos
  rw [← heq, Nat.mul_comm] at hdiv
  refine ⟨by omega, fun hsize' => ?_⟩
  have hblk : 0 < size2blk ni size := by
    by_contra hzero
    rw [Nat.eq_zero_of_not_pos hzero, Nat.zero_mul] at hdiv
    omega
  obtain ⟨k, hk⟩ : ∃ k, size2blk ni size = k + 1 := ⟨size2blk ni size - 1, by omega⟩
  rw [hk, Nat.succ_mul] at hdiv
  rw [hk, Nat.add_sub_cancel]
  omega

theorem blocks_eq_range' {blocks : List ℕ} {start count : ℕ} (hsorted : blocks.Pairwise (· < ·))
    (hrange : ∀ b ∈ blocks, start ≤ b ∧ b < start + count) (hcount : count ≤ blocks.length) :
    blocks = List.range' start count := by
  have hnodup : blocks.Nodup := hsorted.imp fun hlt => hlt.ne
  have hsub : blocks ⊆ List.range' start count := fun b hb =>
    List.mem_range'_1.mpr (hrange b hb)
  have hperm : blocks.Perm (List.range' start count) :=
    (hnodup.subperm hsub).perm_of_length_le (by rw [List.length_range']; exact hcount)
  exact hperm.eq_of_pairwise (fun a b _ _ hab hba => absurd hba (lt_asymm hab)) hsorted
    List.pairwise_lt_range'

/-! ## Loading -/

section Loading

variable {ni₀ : Instance} {v : World} {ba : ℕ}

theorem first_block_image {n : ℕ} (hlayout : TableLayout ni₀) (hsizes : SameSizes ni₀ v.ni)
    (hn : 0 < n) (hcontent : tableBytes v.ni v.flash (List.range' ba n) v.ni.infoTableSize =
      nextImage ni₀) :
    blockBytes v.ni v.flash ba (min v.ni.infoTableSize v.ni.erasesize) =
      (nextImage ni₀).take (min v.ni.infoTableSize v.ni.erasesize) := by
  obtain ⟨k, rfl⟩ : ∃ k, n = k + 1 := ⟨n - 1, by omega⟩
  have hlen := congrArg List.length hcontent
  rw [hlayout.nextImage_slices.1, ← hsizes.infoTableSize] at hlen
  rw [List.range'_succ, tableBytes] at hcontent hlen
  have hfirst := length_pageBytes_le v.ni.writesize (v.flash.pages ba)
    (min v.ni.infoTableSize v.ni.erasesize) 0 (min v.ni.infoTableSize v.ni.erasesize)
  have hrest := length_tableBytes_le v.ni v.flash (List.range' (ba + 1) k)
    (v.ni.infoTableSize - min v.ni.infoTableSize v.ni.erasesize)
  change (blockBytes v.ni v.flash ba _).length ≤ _ at hfirst
  rw [List.length_append] at hlen
  rw [← hcontent, List.take_left' (by omega)]

theorem nmbmTryLoadInfoTable_image {tableLoaded : Bool} (hlayout : TableLayout ni₀)
    (hsizes : SameSizes ni₀ v.ni)
    (hclean : CleanBlocks v ba (size2blk v.ni v.ni.infoTableSize))
    (herase : infoTableHeaderBytes ≤ v.ni.erasesize)
    (hcontent : tableBytes v.ni v.flash (List.range' ba (size2blk v.ni v.ni.infoTableSize))
      v.ni.infoTableSize = nextImage ni₀)
    (hlength : v.ni.blockMapping.length = ni₀.blockMapping.length)
    (hblocks : v.ni.dataBlockCount ≤ ni₀.blockMapping.length)
    (hmapping : ∀ entry ∈ ni₀.blockMapping,
      ¬((v.ni.dataBlockCount ≤ (entry % 2 ^ 32).toNat ∧ (entry % 2 ^ 32).toNat <
          ba + size2blk v.ni v.ni.infoTableSize) ∨ (entry % 2 ^ 32).toNat = v.ni.signatureBa))
    (hgood : ∀ b, ba ≤ b → b < ba + size2blk v.ni v.ni.infoTableSize → ni₀.Good b)
    (hnewer : tableLoaded = false ∨
      v.ni.infoTable.writeCount < (nextInfoTableHeader ni₀).writeCount) :
    ∃ top v', nmbmTryLoadInfoTable ba tableLoaded v = (some ⟨ba + size2blk v.ni v.ni.infoTableSize,
        (nextInfoTableHeader ni₀).writeCount, top⟩, v') ∧
      v'.ni.blockState = ni₀.blockState ∧ v'.ni.blockMapping = ni₀.blockMapping ∧
      v'.ni.infoTable.writeCount = (nextInfoTableHeader ni₀).writeCount := by
  have hroom : 0 < v.ni.infoTableSize := by
    rw [hsizes.infoTableSize]
    exact lt_of_lt_of_le (by decide) hlayout.header_room
  have hlt : v.ni.infoTableSize < 2 ^ 32 := hsizes.infoTableSize ▸ hlayout.size_lt
  obtain ⟨hsize, hneeded⟩ := size2blk_eq hclean.sound hlt
  obtain ⟨hneeded, hpos⟩ := hneeded hroom
  have hheader : nmbmCheckInfoTableHeader v.ni
      (blockBytes v.ni v.flash ba (min v.ni.infoTableSize v.ni.erasesize)) = true := by
    rw [first_block_image hlayout hsizes hpos hcontent]
    refine hlayout.checkInfoTableHeader hsizes (le_min ?_ herase)
    rw [hsizes.infoTableSize]
    exact hlayout.header_room
  obtain ⟨hread, hstep⟩ := readTableLoop_clean [] none hclean hsize (fun _ => hneeded)
    (fun _ => ⟨hpos, hheader⟩)
  rw [List.nil_append, hcontent] at hread
  unfold nmbmTryLoadInfoTable
  rw [getNi_bind_run, bind_run, hread]
  generalize (readTableLoop ba v.ni.infoTableSize [] none
    (size2blk v.ni v.ni.infoTableSize) v).2 = v₁ at hstep ⊢
  have hsizes₁ : SameSizes ni₀ v₁.ni :=
    ⟨hstep.lower.trans hsizes.lower,
      (congrArg Instance.infoTableSize hstep.core :).trans hsizes.infoTableSize,
      (congrArg Instance.stateTableSize hstep.core :).trans hsizes.stateTableSize,
      (congrArg Instance.mappingTableSize hstep.core :).trans hsizes.mappingTableSize⟩
  have hblocks₁ : v₁.ni.dataBlockCount = v.ni.dataBlockCount :=
    (congrArg Instance.dataBlockCount hstep.core :)
  have hsignature₁ : v₁.ni.signatureBa = v.ni.signatureBa :=
    (congrArg Instance.signatureBa hstep.core :)
  have hlength₁ : v₁.ni.blockMapping.length = ni₀.blockMapping.length :=
    (congrArg (List.length ∘ Instance.blockMapping) hstep.core :).trans hlength
  have hcount₁ : v₁.ni.infoTable = v.ni.infoTable := (congrArg Instance.infoTable hstep.core :)
  rw [← hblocks₁, ← hsignature₁] at hmapping
  obtain ⟨minimum, hminimum⟩ := hlayout.checkMapping 0 v₁.ni.signatureBa
    v₁.ni.dataBlockCount (by omega) hmapping
  have hstates : (List.range' ba (ba + size2blk v.ni v.ni.infoTableSize - ba)).all (fun b =>
      nmbmGetBlockState v₁.ni b ≠ blockStGood ∨
        nmbmGetBlockStateRaw (imageState v₁.ni (nextImage ni₀)) b = blockStGood) = true := by
    rw [List.all_eq_true]
    intro b hb
    rw [List.mem_range'_1] at hb
    rw [decide_eq_true_iff, hlayout.imageState_eq hsizes₁]
    exact .inr (hgood b hb.1 (by omega))
  have hcheck : nmbmCheckInfoTable v₁.ni ba (ba + size2blk v.ni v.ni.infoTableSize)
      (nextImage ni₀) = some (subU32 minimum 1) := by
    rw [nmbmCheckInfoTable, hminimum]
    exact if_pos hstates
  have hwriteCount : (InfoTableHeader.ofBytes (nextImage ni₀)).writeCount =
      (nextInfoTableHeader ni₀).writeCount := by
    have hfields := hlayout.ofBytes_nextImage hlayout.header_room
    rw [hlayout.take_all] at hfields
    exact hfields.2.2.1
  dsimp only [Option.getD_none]
  rw [getNi_bind_run, ite_run, hlayout.checkHeader hsizes₁, if_neg (by decide), hcheck]
  have hload : tableLoaded = false ∨
      (InfoTableHeader.ofBytes (nextImage ni₀)).writeCount > v₁.ni.infoTable.writeCount := by
    rw [hwriteCount, hcount₁]
    exact hnewer
  dsimp only
  rw [bind_run, when_run, if_pos hload, bind_run, pure_run, hwriteCount]
  exact ⟨_, _, rfl, hlayout.loadImage_eq hsizes₁ hlength₁⟩

end Loading

/-! ## Writing and loading -/

theorem nmbmWriteInfoTable_blocks {w : World} {lo hi : ℕ} {place : Placement}
    (hcache : w.ni.infoTableCache ≠ []) (hwrite : (nmbmWriteInfoTable lo hi w).1 = some place) :
    place.blocks.Pairwise (· < ·) ∧
      (∀ b ∈ place.blocks, place.startBa ≤ b ∧ b < place.endBa ∧ w.ni.Good b) ∧
      (w.ni.lower.Sound → tableBytes w.ni (nmbmWriteInfoTable lo hi w).2.flash place.blocks
        w.ni.infoTableCache.length = w.ni.infoTableCache) := by
  have hspec := nmbmWriteMgmtRange_spec (w := w) lo hi hcache
  have hrun : (nmbmWriteInfoTable lo hi w).1 = (nmbmWriteMgmtRange lo hi w.ni.infoTableCache w).1 ∧
      (nmbmWriteInfoTable lo hi w).2.flash =
        (nmbmWriteMgmtRange lo hi w.ni.infoTableCache w).2.flash := by
    rw [nmbmWriteInfoTable, getNi_bind_run, bind_run]
    cases (nmbmWriteMgmtRange lo hi w.ni.infoTableCache w).1 with
    | none => exact ⟨rfl, rfl⟩
    | some place => exact ⟨rfl, rfl⟩
  rw [hrun.1] at hwrite
  rw [hrun.2]
  have hplaced := hspec.placedIn hcache hwrite
  obtain ⟨new, hnew, hwritten⟩ := hspec.written place hwrite
  rw [List.nil_append] at hnew
  rw [hnew]
  refine ⟨hwritten.sorted, fun b hb => ?_, hwritten.content⟩
  exact ⟨hplaced.start_le b (hnew ▸ hb), hplaced.lt_end b (hnew ▸ hb), hwritten.good b hb⟩

def twoPageDevice : LowerDevice := { smallDevice 1 with size := 2048, erasesize := 128 }

def fourBlocks : Instance :=
  { nmbmInitStructure twoPageDevice with dataBlockCount := 4, signatureBa := 15 }

theorem fourBlocks_layout : TableLayout fourBlocks := by
  have h : TableLayout (nmbmInitStructure twoPageDevice) :=
    initStructure_layout (by decide +kernel) (by decide +kernel) (by decide +kernel)
  exact ⟨h.header_le, h.state_le, h.mapping_le, h.size_lt, h.states, h.mappings, h.entries,
    h.writeCount_lt⟩

def writingWorld (pattern : ℕ → Response) : World :=
  { World.powerOn twoPageDevice (blankFlash []) pattern with ni := fourBlocks.generateCache }

def loadingWorld (flash : Flash) : World :=
  { World.powerOn twoPageDevice flash (fun _ => Response.ok) with ni := fourBlocks }

/-- The chip on which the sixth operation, the erase of the second block, fails
with all its repetitions. -/
def failingErase (tick : ℕ) : Response :=
  if 5 ≤ tick ∧ tick < 8 then { Response.ok with ret := -eio } else Response.ok

end Nwa50ax.Nmbm
