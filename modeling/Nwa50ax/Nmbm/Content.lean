import Nwa50ax.Nmbm.Chip

/-!
# What a block holds after it has been written and verified

`blockBytes` is what reading a block from its first page on delivers, and
`tableBytes` is the same for a table that occupies several blocks.  Data that
`nmbn_write_verify_data` reports as written can be read back.
-/

namespace Nwa50ax.Nmbm

open ByteBuffer StateProgram

/-! ## Reading back -/

/-- The first `size` bytes of the pages from `pg` on. -/
def pageBytes (writesize : ℕ) (pages : ℕ → Page) : ℕ → ℕ → ℕ → List UInt8
  | 0, _, _ => []
  | fuel + 1, pg, size =>
      if size = 0 then []
      else (pages pg).data.take (min writesize size) ++
        pageBytes writesize pages fuel (pg + 1) (size - min writesize size)

def blockBytes (ni : Instance) (flash : Flash) (ba size : ℕ) : List UInt8 :=
  pageBytes ni.writesize (flash.pages ba) size 0 size

/-- The first `size` bytes of a table that occupies the given blocks. -/
def tableBytes (ni : Instance) (flash : Flash) : List ℕ → ℕ → List UInt8
  | [], _ => []
  | ba :: blocks, size =>
      blockBytes ni flash ba (min size ni.erasesize) ++
        tableBytes ni flash blocks (size - min size ni.erasesize)

@[simp] theorem pageBytes_zero
    (writesize : ℕ) (pages : ℕ → Page) (fuel pg : ℕ) :
    pageBytes writesize pages fuel pg 0 = [] := by
  cases fuel <;> simp [pageBytes]

theorem blockBytes_congr
    {ni ni' : Instance} {flash flash' : Flash} {ba : ℕ} (size : ℕ)
    (hlower : ni'.lower = ni.lower) (h : flash'.pages ba = flash.pages ba) :
    blockBytes ni' flash' ba size = blockBytes ni flash ba size := by
  unfold blockBytes Instance.writesize
  rw [hlower, h]

theorem tableBytes_congr
    {ni ni' : Instance} {flash flash' : Flash} {blocks : List ℕ} (size : ℕ)
    (hlower : ni'.lower = ni.lower)
    (h : ∀ ba ∈ blocks, flash'.pages ba = flash.pages ba) :
    tableBytes ni' flash' blocks size = tableBytes ni flash blocks size := by
  have herase : ni'.erasesize = ni.erasesize := by
    unfold Instance.erasesize
    rw [hlower]
  induction blocks generalizing size with
  | nil => rfl
  | cons ba blocks ih =>
      unfold tableBytes
      rw [herase, blockBytes_congr _ hlower (h ba List.mem_cons_self),
        ih _ fun b hb => h b (List.mem_cons_of_mem _ hb)]

theorem tableBytes_lower
    {ni ni' : Instance} (hlower : ni'.lower = ni.lower) (flash : Flash)
    (blocks : List ℕ) (size : ℕ) :
    tableBytes ni' flash blocks size = tableBytes ni flash blocks size :=
  tableBytes_congr size hlower fun _ _ => rfl

/-! ## Blocks that an effect does not reach -/

theorem LowerOp.apply_pages_other
    (op : LowerOp) (flash : Flash) {ba : ℕ} (hne : op.block ≠ ba) :
    (op.apply flash).pages ba = flash.pages ba := by
  cases op with
  | eraseBlock b left => exact if_neg (Ne.symm hne)
  | writePage b pg left => exact if_neg (Ne.symm hne)
  | markBadBlock b left mark => exact if_neg (Ne.symm hne)

theorem replay_pages_other
    (ops : List LowerOp) (flash : Flash) {ba : ℕ} (hne : ∀ op ∈ ops, op.block ≠ ba) :
    (replay ops flash).pages ba = flash.pages ba := by
  induction ops generalizing flash with
  | nil => rfl
  | cons op ops ih =>
      have hrest := ih (op.apply flash) fun o ho => hne o (List.mem_cons_of_mem _ ho)
      exact hrest.trans (op.apply_pages_other flash (hne op List.mem_cons_self))

theorem Effects.pages {S : Set ℕ} {w w' : World} (h : Effects S w w')
    {ba : ℕ} (hba : ba ∉ S) : w'.flash.pages ba = w.flash.pages ba := by
  obtain ⟨ops, -, hflash, hblocks⟩ := h
  rw [hflash]
  exact replay_pages_other ops w.flash fun op hop heq => hba (heq ▸ hblocks op hop)

/-! ## One page -/

theorem blockOf_congr {ni ni' : Instance} (hlower : ni'.lower = ni.lower) (addr : ℕ) :
    blockOf ni' addr = blockOf ni addr := by
  unfold blockOf Instance.erasesize
  rw [hlower]

theorem pageOf_congr {ni ni' : Instance} (hlower : ni'.lower = ni.lower) (addr : ℕ) :
    pageOf ni' addr = pageOf ni addr := by
  unfold pageOf Instance.erasesize Instance.writesize
  rw [hlower]

@[simp] theorem setPageCache_flash (cache : List UInt8) (w : World) :
    (setPageCache cache w).2.flash = w.flash := rfl

@[simp] theorem setPageCache_lower (cache : List UInt8) (w : World) :
    (setPageCache cache w).2.ni.lower = w.ni.lower := rfl

theorem nmbmReadPhysPage_result (addr : ℕ) (w : World) :
    (nmbmReadPhysPage addr w).2.flash = w.flash ∧
      ((nmbmReadPhysPage addr w).1.1 = 0 →
        (nmbmReadPhysPage addr w).1.2 =
          w.flash.pages (blockOf w.ni addr) (pageOf w.ni addr)) := by
  unfold nmbmReadPhysPage
  induction nmbmTryCount - 1 generalizing w with
  | zero =>
      refine ⟨rfl, fun hret => ?_⟩
      exact if_pos hret
  | succ extra ih =>
      simp only [tryTimes, bind_run, ite_run]
      split
      · rename_i hret
        exact ⟨rfl, fun _ => if_pos hret⟩
      · exact ih _

theorem nmbmWritePhysPage_pages
    (addr : ℕ) (data oob : Option (List UInt8)) (mode : OobMode) (w : World)
    {ba pg : ℕ} (hne : ba ≠ blockOf w.ni addr ∨ pg ≠ pageOf w.ni addr) :
    (nmbmWritePhysPage addr data oob mode w).2.flash.pages ba pg =
      w.flash.pages ba pg := by
  have hwrite : ∀ w : World, (ba ≠ blockOf w.ni addr ∨ pg ≠ pageOf w.ni addr) →
      (lowerWritePage addr data oob mode w).2.flash.pages ba pg = w.flash.pages ba pg := by
    intro w hne
    simp only [lowerWritePage, issue, LowerOp.apply, Flash.setPage]
    split
    · rename_i hba
      exact if_neg (hne.resolve_left (not_not.mpr hba))
    · rfl
  unfold nmbmWritePhysPage
  simp only [bind_run, pure_run]
  induction nmbmTryCount - 1 generalizing w with
  | zero => exact hwrite w hne
  | succ extra ih =>
      simp only [tryTimes, bind_run, ite_run]
      split
      · exact hwrite w hne
      · exact (ih (lowerWritePage addr data oob mode w).2 hne).trans (hwrite w hne)

/-! ## Verified data -/

theorem LowerDevice.Sound.pageOf_block
    {ni : Instance} (h : ni.lower.Sound) (ba : ℕ) {pg : ℕ}
    (hpg : pg * ni.writesize < ni.erasesize) :
    pageOf ni (ba2addr ni ba + pg * ni.writesize) = pg := by
  have hws : 0 < ni.writesize := h.writesize_pos
  unfold pageOf
  rw [h.ba2addr_eq, Nat.mul_add_mod', Nat.mod_eq_of_lt hpg, Nat.mul_div_cancel _ hws]

theorem LowerDevice.Sound.page_aligned
    {ni : Instance} (h : ni.lower.Sound) (ba pg : ℕ) :
    (ba2addr ni ba + pg * ni.writesize) % ni.writesize = 0 := by
  have hdvd : ni.writesize ∣ ni.erasesize := h.writesize_dvd
  rw [h.ba2addr_eq]
  exact Nat.mod_eq_zero_of_dvd
    (Dvd.dvd.add (hdvd.mul_left ba) (Dvd.intro_left pg rfl))

@[simp] theorem writeVerifyLoop_nil (off fuel : ℕ) (w : World) :
    writeVerifyLoop off fuel [] w = (true, w) := by
  cases fuel <;> simp [writeVerifyLoop]

theorem writeVerifyLoop_cons
    {off fuel : ℕ} {data : List UInt8} {w : World} (hdata : data ≠ [])
    (haligned : off % w.ni.writesize = 0)
    (hsuccess : (writeVerifyLoop off (fuel + 1) data w).1 = true) :
    ∃ w₁, w₁.ni.lower = w.ni.lower ∧
      writeVerifyLoop off (fuel + 1) data w =
        writeVerifyLoop (off + (data.take w.ni.writesize).length) fuel
          (data.drop (data.take w.ni.writesize).length) w₁ ∧
      (w₁.flash.pages (blockOf w.ni off) (pageOf w.ni off)).data.take
          (data.take w.ni.writesize).length = data.take w.ni.writesize ∧
      ∀ b p, b ≠ blockOf w.ni off ∨ p ≠ pageOf w.ni off →
        w₁.flash.pages b p = w.flash.pages b p := by
  rw [writeVerifyLoop] at hsuccess ⊢
  simp only [ite_run, if_neg hdata, bind_run, getNi_run, haligned, Nat.sub_zero, pure_run]
    at hsuccess ⊢
  have hflash₀ := setPageCache_flash
    (overwrite (List.replicate w.ni.rawpageSize 255) 0 (data.take w.ni.writesize)) w
  have hlower₀ := setPageCache_lower
    (overwrite (List.replicate w.ni.rawpageSize 255) 0 (data.take w.ni.writesize)) w
  generalize (setPageCache (overwrite (List.replicate w.ni.rawpageSize 255) 0
    (data.take w.ni.writesize)) w).2 = w₀ at hsuccess hflash₀ hlower₀ ⊢
  have hlower₁ : (nmbmWritePhysPage off (some (w₀.ni.pageCache.take w₀.ni.writesize))
      none .placeOob w₀).2.ni.lower = w.ni.lower :=
    (Keeps.chipStep (nmbmWritePhysPage_step (S := Set.univ) (fun _ => Set.mem_univ _)
      _ _ _)).lower.trans hlower₀
  have hother : ∀ b p, b ≠ blockOf w₀.ni off ∨ p ≠ pageOf w₀.ni off →
      (nmbmWritePhysPage off (some (w₀.ni.pageCache.take w₀.ni.writesize))
        none .placeOob w₀).2.flash.pages b p = w₀.flash.pages b p :=
    fun b p => nmbmWritePhysPage_pages off _ none .placeOob w₀
  rw [blockOf_congr hlower₀, pageOf_congr hlower₀, hflash₀] at hother
  generalize nmbmWritePhysPage off (some (w₀.ni.pageCache.take w₀.ni.writesize))
    none .placeOob w₀ = r₁ at hsuccess hlower₁ hother ⊢
  have hread := nmbmReadPhysPage_result off r₁.2
  rw [blockOf_congr hlower₁, pageOf_congr hlower₁] at hread
  have hlower₂ : (nmbmReadPhysPage off r₁.2).2.ni.lower = w.ni.lower :=
    (nmbmReadPhysPage_reads off r₁.2).lower.trans hlower₁
  generalize nmbmReadPhysPage off r₁.2 = r₂ at hsuccess hread hlower₂ ⊢
  by_cases hwritten : r₁.1 = false
  · rw [if_pos hwritten] at hsuccess
    cases hsuccess
  rw [if_neg hwritten] at hsuccess ⊢
  by_cases hret : r₂.1.1 ≠ 0
  · rw [if_pos hret] at hsuccess
    cases hsuccess
  rw [if_neg hret] at hsuccess ⊢
  by_cases hverify : slice r₂.1.2.data 0 (data.take w.ni.writesize).length ≠
      data.take w.ni.writesize
  · rw [if_pos hverify] at hsuccess
    cases hsuccess
  rw [if_neg hverify]
  refine ⟨_, ?_, rfl, ?_, fun b p hne => ?_⟩
  · exact hlower₂
  · have hslice := not_not.mp hverify
    rw [slice, List.drop_zero, hread.2 (not_not.mp hret), ← hread.1] at hslice
    exact hslice
  · have hpages := hother b p hne
    rw [← hread.1] at hpages
    exact hpages

/-- Induction over the rounds: pages before `pg` are left alone, and from `pg`
on the block reads as the data. -/
theorem writeVerifyLoop_result
    {ni : Instance} (ba pg : ℕ) {fuel : ℕ} {data : List UInt8} {w : World}
    (hni : w.ni.lower = ni.lower) (hsound : ni.lower.Sound)
    (hlen : pg * ni.writesize + data.length ≤ ni.erasesize) (hfuel : data.length ≤ fuel)
    (hsuccess : (writeVerifyLoop (ba2addr ni ba + pg * ni.writesize) fuel data w).1 = true) :
    (∀ p < pg, (writeVerifyLoop (ba2addr ni ba + pg * ni.writesize) fuel data w).2.flash.pages
        ba p = w.flash.pages ba p) ∧
      pageBytes ni.writesize
        ((writeVerifyLoop (ba2addr ni ba + pg * ni.writesize) fuel data w).2.flash.pages ba)
        fuel pg data.length = data := by
  induction fuel generalizing pg data w with
  | zero =>
      have hdata : data = [] := List.length_eq_zero_iff.mp (by omega)
      subst hdata
      exact ⟨fun _ _ => by rw [writeVerifyLoop_nil], rfl⟩
  | succ fuel ih =>
      by_cases hdata : data = []
      · subst hdata
        rw [writeVerifyLoop_nil]
        exact ⟨fun _ _ => rfl, by simp [pageBytes]⟩
      have hpos : 0 < data.length := List.length_pos_iff.mpr hdata
      have hws : 0 < ni.writesize := hsound.writesize_pos
      have hwseq : w.ni.writesize = ni.writesize := by
        unfold Instance.writesize
        rw [hni]
      obtain ⟨w₁, hlower, hrun, hchunk, hother⟩ := writeVerifyLoop_cons hdata
        (by rw [hwseq]; exact hsound.page_aligned ba pg) hsuccess
      rw [hwseq, blockOf_congr hni, pageOf_congr hni,
        hsound.blockOf_ba2addr ba (by omega), hsound.pageOf_block ba (by omega)]
        at hchunk
      rw [blockOf_congr hni, pageOf_congr hni, hsound.blockOf_ba2addr ba (by omega),
        hsound.pageOf_block ba (by omega)] at hother
      rw [hrun, hwseq] at hsuccess ⊢
      rw [pageBytes, if_neg hpos.ne']
      rcases Nat.lt_or_ge ni.writesize data.length with hlong | hshort
      · have htake : (data.take ni.writesize).length = ni.writesize := by simp; omega
        have hnext : ba2addr ni ba + pg * ni.writesize + ni.writesize =
            ba2addr ni ba + (pg + 1) * ni.writesize := by rw [Nat.succ_mul]; omega
        rw [htake] at hchunk hsuccess ⊢
        rw [hnext] at hsuccess ⊢
        have hlen' : (pg + 1) * ni.writesize + (data.drop ni.writesize).length ≤
            ni.erasesize := by
          rw [Nat.succ_mul, List.length_drop]
          omega
        obtain ⟨hkept, hrest⟩ := ih (pg + 1) (hlower.trans hni) hlen'
          (by rw [List.length_drop]; omega) hsuccess
        refine ⟨fun p hp => (hkept p (by omega)).trans (hother ba p (.inr (by omega))), ?_⟩
        rw [List.length_drop] at hrest
        rw [Nat.min_eq_left hlong.le, hrest, hkept pg (by omega), hchunk,
          List.take_append_drop]
      · have htake : data.take ni.writesize = data := List.take_of_length_le hshort
        rw [htake] at hchunk ⊢
        rw [List.drop_length, writeVerifyLoop_nil, Nat.min_eq_right hshort, Nat.sub_self,
          pageBytes_zero, List.append_nil]
        exact ⟨fun p hp => hother ba p (.inr (by omega)), hchunk⟩

theorem nmbnWriteVerifyData_result
    {ni : Instance} {ba : ℕ} {data : List UInt8} {w : World}
    (hni : w.ni.lower = ni.lower) (hsound : ni.lower.Sound)
    (hlen : data.length ≤ ni.erasesize)
    (hsuccess : (nmbnWriteVerifyData (ba2addr ni ba) data w).1 = true) :
    blockBytes ni (nmbnWriteVerifyData (ba2addr ni ba) data w).2.flash ba data.length =
      data := by
  have hresult := writeVerifyLoop_result ba 0 hni hsound (by omega)
    (le_refl data.length)
  rw [Nat.zero_mul, Nat.add_zero] at hresult
  exact (hresult hsuccess).2

end Nwa50ax.Nmbm
