import Nwa50ax.Nmbm.Create
import Nwa50ax.Nmbm.TableFormat

/-!
# The search for the signature

`nmbm_find_signature` counts a block address down from the end of the chip and
tests it before it decrements it, so that the last block it looks at lies one
below the start of the management area that `nmbm_create_new` computes.  The
search stays inside the area only if it finds a signature there.
-/

namespace Nwa50ax.Nmbm

open ByteBuffer StateProgram

/-! ## Blocks that are looked at -/

/-- The step has only read from the chip, and only from the block `ba`. -/
structure LooksAt (ba : ℕ) (w w' : World) : Prop where
  step : ReadStep w w'
  reads : ∃ new, w'.reads = new ++ w.reads ∧ ∀ b ∈ new, b = ba

instance (ba : ℕ) : Std.Refl (LooksAt ba) where
  refl w := ⟨Std.Refl.refl w, [], rfl, by simp⟩

instance (ba : ℕ) : IsTrans World (LooksAt ba) where
  trans _ _ _ h h' := by
    obtain ⟨new, hnew, hall⟩ := h.reads
    obtain ⟨new', hnew', hall'⟩ := h'.reads
    refine ⟨IsTrans.trans _ _ _ h.step h'.step, new' ++ new, ?_, ?_⟩
    · rw [hnew', hnew, List.append_assoc]
    · intro b hb
      rcases List.mem_append.mp hb with hmem | hmem
      · exact hall' b hmem
      · exact hall b hmem

abbrev DeviceLooks (nld : LowerDevice) (ba : ℕ) : World → World → Prop :=
  Under (fun w => w.ni.lower = nld) (LooksAt ba)

theorem LooksAt.lower {ba : ℕ} {w w' : World} (h : LooksAt ba w w') :
    w'.ni.lower = w.ni.lower := by
  have hlower := congrArg Instance.lower h.step.core
  exact hlower

section Looks

variable {nld : LowerDevice} {ba addr : ℕ}

theorem keeps_of_looksAt {α : Type} {m : Driver α}
    (h : ∀ w, w.ni.lower = nld → LooksAt ba w (m w).2) : Keeps (DeviceLooks nld ba) m := by
  intro w hw
  exact ⟨(h w hw).lower.trans hw, h w hw⟩

theorem lowerReadPage_looks (haddr : ∀ ni : Instance, ni.lower = nld → blockOf ni addr = ba) :
    Keeps (DeviceLooks nld ba) (lowerReadPage addr) := by
  refine keeps_of_looksAt fun w hw => ⟨lowerReadPage_reads addr w, [blockOf w.ni addr], rfl, ?_⟩
  simpa using haddr w.ni hw

theorem nmbmReadPhysPage_looks
    (haddr : ∀ ni : Instance, ni.lower = nld → blockOf ni addr = ba) :
    Keeps (DeviceLooks nld ba) (nmbmReadPhysPage addr) :=
  tryTimes_keeps (lowerReadPage_looks haddr) _

theorem setPageCache_looks (cache : List UInt8) :
    Keeps (DeviceLooks nld ba) (setPageCache cache) :=
  keeps_of_looksAt fun w _ => ⟨setPageCache_reads cache w, [], rfl, by simp⟩

theorem blockOf_page (hsound : nld.Sound) {ni₀ ni : Instance} (hni₀ : ni₀.lower = nld)
    (hni : ni.lower = nld) {off : ℕ} (hoff : off < nld.erasesize.toNat) :
    blockOf ni (ba2addr ni₀ ba + off) = ba := by
  have haddr : ba2addr ni₀ ba = ba2addr ni ba := by
    unfold ba2addr Instance.erasesizeShift Instance.erasesize
    rw [hni₀, hni]
  rw [haddr]
  subst hni
  exact hsound.blockOf_ba2addr ba hoff

theorem blockOf_start (hsound : nld.Sound) {ni₀ ni : Instance} (hni₀ : ni₀.lower = nld)
    (hni : ni.lower = nld) : blockOf ni (ba2addr ni₀ ba) = ba :=
  blockOf_page hsound hni₀ hni hsound.erasesize_pos

theorem nmbmCheckBadPhysBlock_looks (hsound : nld.Sound) (ba : ℕ) :
    Keeps (DeviceLooks nld ba) (nmbmCheckBadPhysBlock ba) := by
  unfold nmbmCheckBadPhysBlock
  intro w hw
  have haddr : ∀ ni : Instance, ni.lower = nld → blockOf ni (ba2addr w.ni ba) = ba :=
    fun ni hni => blockOf_start hsound hw hni
  rw [getNi_bind_run]
  have hquery : Keeps (DeviceLooks nld ba) (lowerIsBadBlock (ba2addr w.ni ba)) := by
    refine keeps_of_looksAt fun w' hw' =>
      ⟨lowerIsBadBlock_reads _ w', [blockOf w'.ni (ba2addr w.ni ba)], rfl, ?_⟩
    simpa using haddr w'.ni hw'
  refine Keeps.ite (fun _ => hquery) (fun _ => ?_) w hw
  refine (nmbmReadPhysPage_looks haddr).bind fun result => ?_
  refine (setPageCache_looks _).bind fun _ => ?_
  exact Keeps.ite (fun _ => Keeps.pure _) (fun _ => Keeps.pure _)

theorem nmbmCheckBadPhysBlock_mem {w : World} (hsound : w.ni.lower.Sound) (ba : ℕ) :
    ba ∈ (nmbmCheckBadPhysBlock ba w).2.reads := by
  have haddr : ∀ ni : Instance, ni.lower = w.ni.lower → blockOf ni (ba2addr w.ni ba) = ba :=
    fun ni hni => blockOf_start hsound rfl hni
  have hblock := haddr w.ni rfl
  have hfirst : ∀ extra, blockOf w.ni (ba2addr w.ni ba) ∈
      (tryTimes (lowerReadPage (ba2addr w.ni ba)) extra w).2.reads := by
    intro extra
    cases extra with
    | zero => exact List.mem_cons_self
    | succ extra =>
        have hgrow := tryTimes_keeps (lowerReadPage_looks haddr) extra
          (lowerReadPage (ba2addr w.ni ba) w).2 rfl
        obtain ⟨new, hnew, -⟩ := hgrow.2.reads
        rw [tryTimes, bind_run, ite_run]
        split
        · exact List.mem_cons_self
        · rw [hnew]
          exact List.mem_append_right _ List.mem_cons_self
  unfold nmbmCheckBadPhysBlock
  rw [getNi_bind_run, ite_run]
  split
  · change ba ∈ blockOf w.ni (ba2addr w.ni ba) :: w.reads
    rw [hblock]
    exact List.mem_cons_self
  · rw [hblock] at hfirst
    rw [bind_run, bind_run, ite_run]
    split <;> exact hfirst _

theorem nmbnReadData_looks (haddr : ∀ ni : Instance, ni.lower = nld → blockOf ni addr = ba)
    (haligned : addr % nld.writesize.toNat = 0) {size : ℕ} (hsize : size ≤ nld.writesize.toNat) :
    Keeps (DeviceLooks nld ba) (nmbnReadData addr size) := by
  unfold nmbnReadData
  cases size with
  | zero => exact Keeps.pure _
  | succ size =>
      intro w hw
      have hws : w.ni.writesize = nld.writesize.toNat := by rw [Instance.writesize, hw]
      rw [readDataLoop, ite_run, if_neg (Nat.succ_ne_zero size), getNi_bind_run, hws, haligned,
        Nat.sub_zero, Nat.sub_zero, Nat.min_eq_right hsize]
      refine (nmbmReadPhysPage_looks haddr).bind (fun result => ?_) w hw
      refine (Keeps.when fun _ => setPageCache_looks _).bind fun _ => ?_
      refine Keeps.ite (fun _ => Keeps.pure _) (fun _ => ?_)
      refine Keeps.bind ?_ fun _ => Keeps.pure _
      rw [Nat.sub_self]
      cases size <;> exact Keeps.pure _

theorem findSignatureInPages_looks (hsound : nld.Sound) {ni₀ : Instance} (hni₀ : ni₀.lower = nld)
    (hsize : signatureBytes ≤ nld.writesize.toNat) (ba page count : ℕ)
    (hpages : page + count ≤ ni₀.pagesPerBlock) :
    Keeps (DeviceLooks nld ba)
      (findSignatureInPages (ba2addr ni₀ ba + page * nld.writesize.toNat) count) := by
  induction count generalizing page with
  | zero => exact Keeps.pure none
  | succ count ih =>
      have hws : ni₀.writesize = nld.writesize.toNat := by rw [Instance.writesize, hni₀]
      have hoff : page * nld.writesize.toNat < nld.erasesize.toNat := by
        have hpage : page < ni₀.pagesPerBlock := by omega
        have hlt := pagesPerBlock_mul_lt hpage
        rw [hws, Instance.erasesize, hni₀] at hlt
        exact hlt
      have haligned : (ba2addr ni₀ ba + page * nld.writesize.toNat) % nld.writesize.toNat = 0 := by
        subst hni₀
        exact hsound.page_aligned ba page
      intro w hw
      have hnext : ba2addr ni₀ ba + page * nld.writesize.toNat + w.ni.writesize =
          ba2addr ni₀ ba + (page + 1) * nld.writesize.toNat := by
        rw [Instance.writesize, hw, Nat.succ_mul, Nat.add_assoc]
      rw [findSignatureInPages, getNi_bind_run, hnext]
      refine (nmbnReadData_looks (fun ni hni => blockOf_page hsound hni₀ hni hoff) haligned
        hsize).bind (fun result => ?_) w hw
      exact Keeps.ite (fun _ => Keeps.pure _) (fun _ => ih (page + 1) (by omega))

end Looks

/-! ## Rounds of the search -/

theorem findSignatureLoop_round {limit ba : ℕ} {w : World} (hsound : w.ni.lower.Sound)
    (hsize : signatureBytes ≤ w.ni.writesize) (hlimit : limit ≤ ba) (hpos : 0 < ba)
    (hlt : ba < 2 ^ 32) :
    ∃ w₁, LooksAt (ba - 1) w w₁ ∧ ba - 1 ∈ w₁.reads ∧
      ((∀ fuel, findSignatureLoop limit ba (fuel + 1) w =
          findSignatureLoop limit (ba - 1) fuel w₁) ∨
        ∃ sig, ∀ fuel, findSignatureLoop limit ba (fuel + 1) w = (some (ba - 1, sig), w₁)) := by
  have hcheck := (nmbmCheckBadPhysBlock_looks hsound (ba - 1) w rfl).2
  have hmem := nmbmCheckBadPhysBlock_mem hsound (ba - 1)
  have hni : w.ni.lower = w.ni.lower := rfl
  have hpages := findSignatureInPages_looks hsound hni hsize (ba - 1) 0
    w.ni.pagesPerBlock (by omega) (nmbmCheckBadPhysBlock (ba - 1) w).2 hcheck.lower
  rw [Nat.zero_mul, Nat.add_zero] at hpages
  have hrun : ∀ fuel, findSignatureLoop limit ba (fuel + 1) w =
      if (nmbmCheckBadPhysBlock (ba - 1) w).1 = true then
        findSignatureLoop limit (ba - 1) fuel (nmbmCheckBadPhysBlock (ba - 1) w).2
      else match findSignatureInPages (ba2addr w.ni (ba - 1)) w.ni.pagesPerBlock
          (nmbmCheckBadPhysBlock (ba - 1) w).2 with
        | (some sig, w₁) => (some (ba - 1, sig), w₁)
        | (none, w₁) => findSignatureLoop limit (ba - 1) fuel w₁ := by
    intro fuel
    rw [findSignatureLoop, ite_run, if_neg (by omega), subU32_one hpos hlt, getNi_bind_run,
      bind_run, ite_run]
    split
    · rfl
    · rw [bind_run]
      generalize findSignatureInPages (ba2addr w.ni (ba - 1)) w.ni.pagesPerBlock
        (nmbmCheckBadPhysBlock (ba - 1) w).2 = r
      rcases r with ⟨found, w₁⟩
      cases found <;> rfl
  generalize nmbmCheckBadPhysBlock (ba - 1) w = r at hcheck hmem hpages hrun
  generalize findSignatureInPages (ba2addr w.ni (ba - 1)) w.ni.pagesPerBlock r.2 = found
    at hpages hrun
  by_cases hbad : r.1 = true
  · refine ⟨r.2, hcheck, hmem, .inl fun fuel => ?_⟩
    rw [hrun, if_pos hbad]
  · have hlooks : LooksAt (ba - 1) w found.2 := IsTrans.trans _ _ _ hcheck hpages.2
    have hmem' : ba - 1 ∈ found.2.reads := by
      obtain ⟨new, hnew, -⟩ := hpages.2.reads
      rw [hnew]
      exact List.mem_append_right _ hmem
    rcases found with ⟨sig | sig, w₁⟩
    · refine ⟨w₁, hlooks, hmem', .inl fun fuel => ?_⟩
      rw [hrun, if_neg hbad]
    · refine ⟨w₁, hlooks, hmem', .inr ⟨sig, fun fuel => ?_⟩⟩
      rw [hrun, if_neg hbad]

def searchStop (limit : ℕ) : Option (ℕ × Signature) → ℕ
  | none => limit - 1
  | some (ba, _) => ba

/-- A search from `ba` down has looked at the blocks from the one where it
stopped up to `ba`, and at no others. -/
structure Searched (limit ba : ℕ) (w : World) (result : Option (ℕ × Signature) × World) :
    Prop where
  stop_ge : limit - 1 ≤ searchStop limit result.1
  stop_le : searchStop limit result.1 ≤ ba
  reads : ∃ new, result.2.reads = new ++ w.reads ∧
    ∀ b, b ∈ new ↔ searchStop limit result.1 ≤ b ∧ b < ba

theorem LooksAt.new_reads {ba : ℕ} {w w' : World} (h : LooksAt ba w w')
    (hmem : ba ∈ w'.reads) (hfresh : ba ∉ w.reads) :
    ∃ new, w'.reads = new ++ w.reads ∧ ∀ b, b ∈ new ↔ b = ba := by
  obtain ⟨new, hnew, hall⟩ := h.reads
  refine ⟨new, hnew, fun b => ⟨hall b, ?_⟩⟩
  rintro rfl
  rw [hnew] at hmem
  exact (List.mem_append.mp hmem).resolve_right hfresh

/-- Induction over the rounds.  The blocks below `ba` have not been looked at
before, so that a block that turns up among the reads is a new one. -/
theorem findSignatureLoop_searched {limit ba fuel : ℕ} {w : World} (hsound : w.ni.lower.Sound)
    (hsize : signatureBytes ≤ w.ni.writesize) (hlimit : 0 < limit) (hle : limit ≤ ba + 1)
    (hlt : ba < 2 ^ 32) (hfuel : ba + 1 < fuel + limit) (hfresh : ∀ b < ba, b ∉ w.reads) :
    Searched limit ba w (findSignatureLoop limit ba fuel w) := by
  induction fuel generalizing ba w with
  | zero => omega
  | succ fuel ih =>
      by_cases hend : ba < limit
      · rw [findSignatureLoop, ite_run, if_pos hend, pure_run]
        refine ⟨le_rfl, by simp only [searchStop]; omega, [], rfl, fun b => ?_⟩
        simp only [List.not_mem_nil, searchStop, false_iff]
        omega
      · obtain ⟨w₁, hlooks, hmem, hnext | ⟨sig, hfound⟩⟩ :=
          findSignatureLoop_round hsound hsize (by omega : limit ≤ ba) (by omega) hlt
        · obtain ⟨new, hnew, hall⟩ := hlooks.new_reads hmem (hfresh _ (by omega))
          have hrest : Searched limit (ba - 1) w₁ (findSignatureLoop limit (ba - 1) fuel w₁) := by
            refine ih (hlooks.lower ▸ hsound) ?_ (by omega) (by omega) (by omega) fun b hb => ?_
            · rw [Instance.writesize, hlooks.lower]
              exact hsize
            · rw [hnew, List.mem_append, hall]
              rintro (rfl | hold)
              · omega
              · exact hfresh b (by omega) hold
          obtain ⟨new', hnew', hall'⟩ := hrest.reads
          have hstop := hrest.stop_le
          rw [hnext]
          refine ⟨hrest.stop_ge, by omega, new' ++ new, ?_, fun b => ?_⟩
          · rw [hnew', hnew, List.append_assoc]
          · rw [List.mem_append, hall', hall]
            omega
        · obtain ⟨new, hnew, hall⟩ := hlooks.new_reads hmem (hfresh _ (by omega))
          rw [hfound]
          refine ⟨?_, ?_, new, hnew, fun b => ?_⟩
          · simp only [searchStop]
            omega
          · simp only [searchStop]
            omega
          · rw [hall]
            simp only [searchStop]
            omega

theorem findSignatureLoop_enough {limit ba fuel : ℕ} {w : World} (hsound : w.ni.lower.Sound)
    (hsize : signatureBytes ≤ w.ni.writesize) (hlimit : 0 < limit) (hle : limit ≤ ba + 1)
    (hlt : ba < 2 ^ 32) (hfuel : ba + 1 < fuel + limit) :
    findSignatureLoop limit ba (fuel + 1) w = findSignatureLoop limit ba fuel w := by
  induction fuel generalizing ba w with
  | zero => omega
  | succ fuel ih =>
      by_cases hend : ba < limit
      · rw [findSignatureLoop, findSignatureLoop, ite_run, ite_run, if_pos hend, if_pos hend]
      · obtain ⟨w₁, hlooks, -, hnext | ⟨sig, hfound⟩⟩ :=
          findSignatureLoop_round hsound hsize (by omega : limit ≤ ba) (by omega) hlt
        · rw [hnext, hnext]
          refine ih (hlooks.lower ▸ hsound) ?_ (by omega) (by omega) (by omega)
          rw [Instance.writesize, hlooks.lower]
          exact hsize
        · rw [hfound, hfound]

/-! ## Where the signature can be -/

theorem writeSignatureFrom_range {signature : List UInt8} {ba count found : ℕ} {w : World}
    (h : (writeSignatureFrom signature ba count w).1 = some found) :
    found ≤ ba ∧ ba < found + count := by
  induction count generalizing ba w with
  | zero => cases h
  | succ count ih =>
      have hnext : ∀ w₁, (writeSignatureFrom signature (ba - 1) count w₁).1 = some found →
          found ≤ ba ∧ ba < found + (count + 1) := by
        intro w₁ hrest
        have hrange := ih hrest
        omega
      rw [writeSignatureFrom, getNi_bind_run, ite_run] at h
      split at h
      · exact hnext _ h
      · simp only [bind_run, ite_run] at h
        split at h
        · cases h
          omega
        · exact hnext _ h

theorem nmbmWriteSignature_range {limit found : ℕ} {signature : List UInt8} {w : World}
    (h : (nmbmWriteSignature limit signature w).1 = some found) :
    limit < found ∧ found < w.ni.blockCount := by
  rw [nmbmWriteSignature, getNi_bind_run] at h
  have hrange := writeSignatureFrom_range h
  omega

theorem AcceptedAs.sixteen_dvd {nld accepted : LowerDevice} (h : AcceptedAs nld accepted)
    (hcount : 16 ≤ blockCountOf accepted) : 16 ∣ blockCountOf accepted := by
  have hsize := isPowerOf2_eq h.size
  have herase := isPowerOf2_eq h.erasesize
  have hblocks : blockCountOf accepted =
      u32 (2 ^ Nat.log2 nld.size.toNat / 2 ^ Nat.log2 nld.erasesize.toNat) := by
    rw [h.device]
    change u32 (nld.size.toNat >>> Nat.log2 nld.erasesize.toNat) = _
    rw [Nat.shiftRight_eq_div_pow, ← hsize]
  generalize Nat.log2 nld.size.toNat = a at hblocks
  generalize Nat.log2 nld.erasesize.toNat = b at hblocks
  rw [hblocks] at hcount ⊢
  unfold u32 at hcount ⊢
  rcases Nat.lt_or_ge a b with hlt | hge
  · rw [Nat.div_eq_of_lt (Nat.pow_lt_pow_right (by decide) hlt)] at hcount
    simp at hcount
  · rw [Nat.pow_div hge (by decide)] at hcount ⊢
    rcases Nat.lt_or_ge (a - b) 4 with hsmall | hlarge
    · have hpow : 2 ^ (a - b) < 2 ^ 4 := Nat.pow_lt_pow_right (by decide) hsmall
      have hle := Nat.mod_le (2 ^ (a - b)) (2 ^ 32)
      omega
    · have hdvd : 2 ^ 4 ∣ 2 ^ (a - b) := pow_dvd_pow 2 hlarge
      exact (Nat.dvd_mod_iff (by decide : (16 : ℕ) ∣ 2 ^ 32)).mpr hdvd

theorem region_start {ni : Instance} {k : ℕ} (hk : ni.blockCount = 16 * k)
    (hfit : ni.blockCount < 2 ^ 28) (hratio : ni.lower.maxRatio.toNat < 15) :
    u32 (ni.blockCount * subU32 nmbmMgmtDiv ni.lower.maxRatio.toNat) / nmbmMgmtDiv =
        k * (16 - ni.lower.maxRatio.toNat) ∧
      u32 (ni.blockCount / nmbmMgmtDiv * subU32 nmbmMgmtDiv ni.lower.maxRatio.toNat) =
        k * (16 - ni.lower.maxRatio.toNat) := by
  have hsub : subU32 nmbmMgmtDiv ni.lower.maxRatio.toNat = 16 - ni.lower.maxRatio.toNat :=
    subU32_of_le (by unfold nmbmMgmtDiv; omega) (by decide)
  have hprod : k * (16 - ni.lower.maxRatio.toNat) ≤ k * 16 := Nat.mul_le_mul_left k (by omega)
  rw [hsub, hk]
  unfold u32 nmbmMgmtDiv
  rw [Nat.mul_div_cancel_left k (by decide), Nat.mul_assoc]
  generalize k * (16 - ni.lower.maxRatio.toNat) = n at hprod
  omega

theorem signatureLimit_eq {ni : Instance} (hdvd : 16 ∣ ni.blockCount)
    (hfit : ni.blockCount < 2 ^ 28) (hratio : ni.lower.maxRatio.toNat < 15) :
    signatureLimit ni = mgmtStart ni := by
  obtain ⟨k, hk⟩ := hdvd
  obtain ⟨hstart, hlimit⟩ := region_start hk hfit hratio
  simp only [signatureLimit, mgmtStart, hstart, hlimit]

theorem mgmtStart_bounds {ni : Instance} (hdvd : 16 ∣ ni.blockCount) (hpos : 0 < ni.blockCount)
    (hfit : ni.blockCount < 2 ^ 28) (hratio : ni.lower.maxRatio.toNat < 15) :
    0 < mgmtStart ni ∧ mgmtStart ni ≤ ni.blockCount := by
  obtain ⟨k, hk⟩ := hdvd
  have hlow : k * 2 ≤ k * (16 - ni.lower.maxRatio.toNat) := Nat.mul_le_mul_left k (by omega)
  have hhigh : k * (16 - ni.lower.maxRatio.toNat) ≤ k * 16 := Nat.mul_le_mul_left k (by omega)
  have hroom : subU32 ni.blockCount (k * (16 - ni.lower.maxRatio.toNat)) =
      ni.blockCount - k * (16 - ni.lower.maxRatio.toNat) :=
    subU32_of_le (by omega) (by omega)
  simp only [mgmtStart, (region_start hk hfit hratio).1, hroom]
  split
  · rename_i hreserved
    rw [subU32_of_le (by omega) (by omega)]
    omega
  · omega

/-! ## The bounds of the search -/

def searchWorld (nld : LowerDevice) (flash : Flash) : World :=
  { World.powerOn nld flash (fun _ => Response.ok) with ni := nmbmInitStructure nld }

def signedFlash : Flash :=
  let ni := (nmbmInitStructure (smallDevice 8)).setMgmtStart 8
  let bytes := nmbmUpdateChecksum (newSignature ni).toBytes signatureBytes
  (blankFlash []).setPage 15 0 ⟨bytes ++ List.replicate 16 0xff, List.replicate 16 0xff⟩

theorem searchWorld_ni (nld : LowerDevice) (flash : Flash) :
    (searchWorld nld flash).ni = nmbmInitStructure nld := rfl

def tinyDevice : LowerDevice := { smallDevice 8 with size := 2048 }

def allBadFlash : Flash := { blankFlash [] with marked := fun _ => true }

/-- With the limit zero no block address lies below it, and a search that only
meets bad blocks makes any number of rounds. -/
theorem findSignatureLoop_endless {w : World} (hquery : w.ni.lower.hasIsBadBlock = true)
    (hmarked : ∀ ba, w.flash.marked ba = true) (hpattern : ∀ tick, (w.pattern tick).misreport = false)
    (ba rounds : ℕ) :
    (findSignatureLoop 0 ba rounds w).2.reads.length = w.reads.length + rounds := by
  induction rounds generalizing ba w with
  | zero => rfl
  | succ rounds ih =>
      let w₁ : World := { w with
        tick := w.tick + 1
        reads := blockOf w.ni (ba2addr w.ni (subU32 ba 1)) :: w.reads }
      have hcheck : nmbmCheckBadPhysBlock (subU32 ba 1) w = (true, w₁) := by
        rw [nmbmCheckBadPhysBlock, getNi_bind_run, ite_run, if_pos hquery, lowerIsBadBlock,
          hmarked, hpattern]
        rfl
      have hround : findSignatureLoop 0 ba (rounds + 1) w =
          findSignatureLoop 0 (subU32 ba 1) rounds w₁ := by
        rw [findSignatureLoop, ite_run, if_neg (Nat.not_lt_zero ba), getNi_bind_run, bind_run,
          hcheck, ite_run, if_pos rfl]
      have hrest := ih (w := w₁) hquery hmarked hpattern (subU32 ba 1)
      have hlen : w₁.reads.length = w.reads.length + 1 := List.length_cons
      rw [hround, hrest, hlen]
      omega

end Nwa50ax.Nmbm
