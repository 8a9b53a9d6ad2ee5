import Nwa50ax.Nmbm.BlockState
import Nwa50ax.Nmbm.Attach

/-!
# What operations of the chip leave alone

The routines that only talk to the chip change nothing of the instance but the
page cache, and on a chip with sound geometry they erase, program and mark
only the blocks they are meant for.  Both are one relation between the states
before and after, which composes along a whole routine.
-/

namespace Nwa50ax.Nmbm

open StateProgram

@[simp] theorem getNi_run (w : World) : getNi w = (w.ni, w) := rfl

@[simp] theorem record_ni (call : Instance → Call) (w : World) :
    (record call w).2.ni = w.ni := rfl

@[simp] theorem getNi_bind_run {α : Type} (f : Instance → Driver α) (w : World) :
    (getNi >>= f) w = f w.ni w := rfl

@[simp] theorem modifyNi_run (f : Instance → Instance) (w : World) :
    modifyNi f w = ((), w.mapNi f) := rfl

structure LowerDevice.Sound (nld : LowerDevice) : Prop where
  erasesize_eq : nld.erasesize.toNat = 2 ^ Nat.log2 nld.erasesize.toNat
  writesize_dvd : nld.writesize.toNat ∣ nld.erasesize.toNat

theorem LowerDevice.Sound.erasesize_pos {nld : LowerDevice} (h : nld.Sound) :
    0 < nld.erasesize.toNat := by
  rw [h.erasesize_eq]
  positivity

theorem LowerDevice.Sound.writesize_pos {nld : LowerDevice} (h : nld.Sound) :
    0 < nld.writesize.toNat :=
  Nat.pos_of_dvd_of_pos h.writesize_dvd h.erasesize_pos

theorem LowerDevice.Sound.ba2addr_eq
    {ni : Instance} (h : ni.lower.Sound) (ba : ℕ) :
    ba2addr ni ba = ba * ni.erasesize := by
  unfold ba2addr Instance.erasesizeShift Instance.erasesize
  rw [Nat.shiftLeft_eq, ← h.erasesize_eq]

theorem LowerDevice.Sound.blockOf_ba2addr
    {ni : Instance} (h : ni.lower.Sound) (ba : ℕ) {off : ℕ} (hoff : off < ni.erasesize) :
    blockOf ni (ba2addr ni ba + off) = ba := by
  have hpos : 0 < ni.erasesize := h.erasesize_pos
  unfold blockOf
  rw [h.ba2addr_eq, Nat.mul_comm, Nat.mul_add_div hpos, Nat.div_eq_of_lt hoff,
    Nat.add_zero]

theorem LowerDevice.Sound.blockOf_page
    {ni : Instance} (h : ni.lower.Sound) (addr : ℕ) :
    blockOf ni (addr - addr % ni.writesize) = blockOf ni addr := by
  obtain ⟨pages, hpages⟩ := h.writesize_dvd
  have hes : ni.erasesize = ni.writesize * pages := hpages
  unfold blockOf
  rw [hes, ← Nat.div_div_eq_div_mul, ← Nat.div_div_eq_div_mul]
  congr 1
  have hws : 0 < ni.writesize := h.writesize_pos
  rw [Nat.sub_eq_of_eq_add (Nat.div_add_mod addr ni.writesize).symm,
    Nat.mul_div_cancel_left _ hws]

/-! ## Effects on the chip -/

/-- The step consists of operations on the blocks in `S`. -/
def Effects (S : Set ℕ) (w w' : World) : Prop :=
  ∃ ops, w'.ops = w.ops ++ ops ∧ w'.flash = replay ops w.flash ∧
    ∀ op ∈ ops, op.block ∈ S

theorem Effects.of_eq {S : Set ℕ} {w w' : World}
    (hops : w'.ops = w.ops) (hflash : w'.flash = w.flash) : Effects S w w' :=
  ⟨[], by simp [hops], hflash, by simp⟩

theorem replay_append (ops ops' : List LowerOp) (flash : Flash) :
    replay (ops ++ ops') flash = replay ops' (replay ops flash) := by
  simp [replay]

theorem Effects.trans {S : Set ℕ} {w₁ w₂ w₃ : World}
    (h : Effects S w₁ w₂) (h' : Effects S w₂ w₃) : Effects S w₁ w₃ := by
  obtain ⟨ops, hops, hflash, hblocks⟩ := h
  obtain ⟨ops', hops', hflash', hblocks'⟩ := h'
  refine ⟨ops ++ ops', by rw [hops', hops, List.append_assoc], ?_, ?_⟩
  · rw [hflash', hflash, replay_append]
  · intro op hop
    rcases List.mem_append.mp hop with hold | hnew
    · exact hblocks op hold
    · exact hblocks' op hnew

theorem Effects.mono {S T : Set ℕ} {w w' : World}
    (h : Effects S w w') (hST : S ⊆ T) : Effects T w w' := by
  obtain ⟨ops, hops, hflash, hblocks⟩ := h
  exact ⟨ops, hops, hflash, fun op hop => hST (hblocks op hop)⟩

theorem issue_effects {S : Set ℕ} (ret : ℤ) (op : LowerOp) (w : World)
    (hop : op.block ∈ S) : Effects S w (issue ret op w).2 :=
  ⟨[op], rfl, rfl, by simpa using hop⟩

def Instance.core (ni : Instance) : Instance := { ni with pageCache := [] }

/-- The step changes nothing but the page cache and the blocks in `S`. -/
structure ChipStep (S : Set ℕ) (w w' : World) : Prop where
  core : w'.ni.core = w.ni.core
  pattern : w'.pattern = w.pattern
  calls : w'.calls = w.calls
  tableBlocks : w'.tableBlocks = w.tableBlocks
  effects : w.ni.lower.Sound → Effects S w w'

variable {S T : Set ℕ} {w w' : World}

theorem ChipStep.lower (h : ChipStep S w w') : w'.ni.lower = w.ni.lower := by
  have hlower := congrArg Instance.lower h.core
  exact hlower

theorem ChipStep.blockState (h : ChipStep S w w') :
    w'.ni.blockState = w.ni.blockState := by
  have hstate := congrArg Instance.blockState h.core
  exact hstate

theorem ChipStep.getBlockState (h : ChipStep S w w') (ba : ℕ) :
    nmbmGetBlockState w'.ni ba = nmbmGetBlockState w.ni ba := by
  unfold nmbmGetBlockState
  rw [h.blockState]

theorem ChipStep.good_iff (h : ChipStep S w w') (ba : ℕ) :
    w'.ni.Good ba ↔ w.ni.Good ba := by
  unfold Instance.Good
  rw [h.getBlockState]

theorem ChipStep.trans {w₁ w₂ w₃ : World}
    (h : ChipStep S w₁ w₂) (h' : ChipStep S w₂ w₃) : ChipStep S w₁ w₃ where
  core := h'.core.trans h.core
  pattern := h'.pattern.trans h.pattern
  calls := h'.calls.trans h.calls
  tableBlocks := h'.tableBlocks.trans h.tableBlocks
  effects hsound := (h.effects hsound).trans (h'.effects (h.lower ▸ hsound))

theorem ChipStep.mono (h : ChipStep S w w') (hST : S ⊆ T) : ChipStep T w w' :=
  ⟨h.core, h.pattern, h.calls, h.tableBlocks, fun hsound => (h.effects hsound).mono hST⟩

instance : Std.Refl (ChipStep S) where
  refl _ := ⟨rfl, rfl, rfl, rfl, fun _ => Effects.of_eq rfl rfl⟩

instance : IsTrans World (ChipStep S) where
  trans _ _ _ := ChipStep.trans

structure ReadStep (w w' : World) : Prop where
  core : w'.ni.core = w.ni.core
  pattern : w'.pattern = w.pattern
  calls : w'.calls = w.calls
  tableBlocks : w'.tableBlocks = w.tableBlocks
  ops : w'.ops = w.ops
  flash : w'.flash = w.flash

instance : Std.Refl ReadStep where
  refl _ := ⟨rfl, rfl, rfl, rfl, rfl, rfl⟩

instance : IsTrans World ReadStep where
  trans _ _ _ h h' := ⟨h'.core.trans h.core, h'.pattern.trans h.pattern,
    h'.calls.trans h.calls, h'.tableBlocks.trans h.tableBlocks, h'.ops.trans h.ops,
    h'.flash.trans h.flash⟩

theorem ReadStep.chipStep (h : ReadStep w w') : ChipStep S w w' :=
  ⟨h.core, h.pattern, h.calls, h.tableBlocks, fun _ => Effects.of_eq h.ops h.flash⟩

theorem ReadStep.lower (h : ReadStep w w') : w'.ni.lower = w.ni.lower := by
  have hlower := congrArg Instance.lower h.core
  exact hlower

/-- A chip step of a driver for the given device.  Addresses are computed from
the device, so which blocks an operation reaches depends on it. -/
def DeviceStep (nld : LowerDevice) (S : Set ℕ) : World → World → Prop :=
  Under (fun w => w.ni.lower = nld) (ChipStep S)

instance (nld : LowerDevice) : Std.Refl (DeviceStep nld S) := Under.instRefl

instance (nld : LowerDevice) : IsTrans World (DeviceStep nld S) := Under.instIsTrans

/-- The address belongs to one of the blocks in `S`. -/
def Touches (nld : LowerDevice) (S : Set ℕ) (addr : ℕ) : Prop :=
  nld.Sound → addr / nld.erasesize.toNat ∈ S

variable {nld : LowerDevice} {addr ba : ℕ}

theorem touches_ba2addr_add {ni : Instance} (hni : ni.lower = nld) (hba : ba ∈ S)
    {off : ℕ} (hoff : off < ni.erasesize) : Touches nld S (ba2addr ni ba + off) := by
  subst nld
  intro hsound
  have hblock := hsound.blockOf_ba2addr ba hoff
  unfold blockOf at hblock
  rw [← Instance.erasesize, hblock]
  exact hba

theorem touches_ba2addr {ni : Instance} (hni : ni.lower = nld) (hba : ba ∈ S) :
    Touches nld S (ba2addr ni ba) := by
  intro hsound
  have hpos : 0 < ni.erasesize := by
    unfold Instance.erasesize
    rw [hni]
    exact hsound.erasesize_pos
  exact touches_ba2addr_add hni hba hpos hsound

theorem touches_page {ni : Instance} (hni : ni.lower = nld) (h : Touches nld S addr) :
    Touches nld S (addr - addr % ni.writesize) := by
  subst nld
  intro hsound
  have hblock := hsound.blockOf_page addr
  unfold blockOf at hblock
  rw [← Instance.erasesize, hblock]
  exact h hsound

theorem Keeps.getNi_bind {α : Type} {f : Instance → Driver α}
    (h : ∀ ni, ni.lower = nld → Keeps (DeviceStep nld S) (f ni)) :
    Keeps (DeviceStep nld S) (getNi >>= f) := by
  intro w hw
  exact h w.ni hw w hw

theorem keeps_of_chipStep {α : Type} {m : Driver α}
    (h : ∀ w, w.ni.lower = nld → ChipStep S w (m w).2) : Keeps (DeviceStep nld S) m := by
  intro w hw
  exact ⟨(h w hw).lower.trans hw, h w hw⟩

theorem Keeps.chipStep {α : Type} {m : Driver α}
    (h : Keeps (DeviceStep w.ni.lower S) m) : ChipStep S w (m w).2 :=
  (h w rfl).2

theorem Keeps.deviceStep {α : Type} {m : Driver α} (h : Keeps ReadStep m) :
    Keeps (DeviceStep nld S) m :=
  keeps_of_chipStep fun w _ => (h w).chipStep

theorem Keeps.reads_getNi_bind {α : Type} {f : Instance → Driver α}
    (h : ∀ ni, Keeps ReadStep (f ni)) : Keeps ReadStep (getNi >>= f) :=
  fun w => h w.ni w

theorem setPageCache_reads (cache : List UInt8) : Keeps ReadStep (setPageCache cache) :=
  fun _ => ⟨rfl, rfl, rfl, rfl, rfl, rfl⟩

theorem lowerReadPage_reads (addr : ℕ) : Keeps ReadStep (lowerReadPage addr) :=
  fun _ => ⟨rfl, rfl, rfl, rfl, rfl, rfl⟩

theorem lowerIsBadBlock_reads (addr : ℕ) : Keeps ReadStep (lowerIsBadBlock addr) :=
  fun _ => ⟨rfl, rfl, rfl, rfl, rfl, rfl⟩

theorem issue_step {ret : ℤ} {op : LowerOp}
    (hop : w.ni.lower.Sound → op.block ∈ S) : ChipStep S w (issue ret op w).2 :=
  ⟨rfl, rfl, rfl, rfl, fun hsound => issue_effects ret op w (hop hsound)⟩

theorem lowerWritePage_step (haddr : Touches nld S addr)
    (data oob : Option (List UInt8)) (mode : OobMode) :
    Keeps (DeviceStep nld S) (lowerWritePage addr data oob mode) := by
  refine keeps_of_chipStep fun w hw => issue_step fun hsound => ?_
  subst nld
  exact haddr hsound

theorem lowerEraseBlock_step (haddr : Touches nld S addr) :
    Keeps (DeviceStep nld S) (lowerEraseBlock addr) := by
  refine keeps_of_chipStep fun w hw => issue_step fun hsound => ?_
  subst nld
  exact haddr hsound

theorem lowerMarkBadBlock_step (haddr : Touches nld S addr) :
    Keeps (DeviceStep nld S) (lowerMarkBadBlock addr) := by
  refine keeps_of_chipStep fun w hw => issue_step fun hsound => ?_
  subst nld
  exact haddr hsound

/-! ## Physical pages and blocks -/

theorem tryTimes_keeps
    {R : World → World → Prop} [Std.Refl R] [IsTrans World R] {α : Type}
    {operation : Driver (ℤ × α)} (h : Keeps R operation) (extra : ℕ) :
    Keeps R (tryTimes operation extra) := by
  induction extra with
  | zero => exact h
  | succ extra ih =>
      unfold tryTimes
      refine h.bind fun result => ?_
      exact Keeps.ite (fun _ => Keeps.pure result) (fun _ => ih)

theorem nmbmReadPhysPage_reads (addr : ℕ) : Keeps ReadStep (nmbmReadPhysPage addr) :=
  tryTimes_keeps (lowerReadPage_reads addr) _

theorem nmbmWritePhysPage_step (haddr : Touches nld S addr)
    (data oob : Option (List UInt8)) (mode : OobMode) :
    Keeps (DeviceStep nld S) (nmbmWritePhysPage addr data oob mode) := by
  unfold nmbmWritePhysPage
  refine (tryTimes_keeps (lowerWritePage_step haddr data oob mode) _).bind fun _ => ?_
  exact Keeps.pure _

theorem nmbmErasePhysBlock_step (haddr : Touches nld S addr) :
    Keeps (DeviceStep nld S) (nmbmErasePhysBlock addr) := by
  unfold nmbmErasePhysBlock
  refine (tryTimes_keeps (lowerEraseBlock_step haddr) _).bind fun _ => ?_
  exact Keeps.pure _

theorem nmbmCheckBadPhysBlock_reads (ba : ℕ) : Keeps ReadStep (nmbmCheckBadPhysBlock ba) := by
  unfold nmbmCheckBadPhysBlock
  refine Keeps.reads_getNi_bind fun ni => ?_
  refine Keeps.ite (fun _ => lowerIsBadBlock_reads _) (fun _ => ?_)
  refine (nmbmReadPhysPage_reads _).bind fun result => ?_
  refine (setPageCache_reads _).bind fun _ => ?_
  exact Keeps.ite (fun _ => Keeps.pure _) (fun _ => Keeps.pure _)

theorem writeRawPages_step {count : ℕ}
    (haddr : ∀ k < count, Touches nld S (addr + k * nld.writesize.toNat)) :
    Keeps (DeviceStep nld S) (writeRawPages addr count) := by
  induction count generalizing addr with
  | zero => exact Keeps.pure ()
  | succ count ih =>
      unfold writeRawPages
      refine Keeps.getNi_bind fun ni hni => ?_
      have hfirst : Touches nld S addr := by simpa using haddr 0 (by omega)
      refine (nmbmWritePhysPage_step hfirst _ _ _).bind fun _ => ih fun k hk => ?_
      have hnext := haddr (k + 1) (by omega)
      rw [Instance.writesize, hni, Nat.add_assoc, Nat.add_comm nld.writesize.toNat,
        ← Nat.succ_mul]
      exact hnext

theorem pagesPerBlock_mul_lt {ni : Instance} {k : ℕ} (hk : k < ni.pagesPerBlock) :
    k * ni.writesize < ni.erasesize := by
  unfold Instance.pagesPerBlock at hk
  rcases Nat.eq_zero_or_pos ni.writesize with hzero | hpos
  · simp [hzero] at hk
  · have hle := (Nat.le_div_iff_mul_le hpos).mp (Nat.succ_le_of_lt hk)
    rw [Nat.succ_mul] at hle
    omega

theorem touches_pages {ni : Instance} (hni : ni.lower = nld) (hba : ba ∈ S)
    {k : ℕ} (hk : k < ni.pagesPerBlock) :
    Touches nld S (ba2addr ni ba + k * nld.writesize.toNat) := by
  have hlt := pagesPerBlock_mul_lt hk
  rw [Instance.writesize, hni] at hlt
  exact touches_ba2addr_add hni hba hlt

theorem nmbmMarkPhysBadBlock_step (hba : ba ∈ S) :
    Keeps (DeviceStep nld S) (nmbmMarkPhysBadBlock ba) := by
  unfold nmbmMarkPhysBadBlock
  refine Keeps.getNi_bind fun ni hni => ?_
  refine Keeps.ite (fun _ => ?_) (fun _ => ?_)
  · refine (lowerMarkBadBlock_step (touches_ba2addr hni hba)).bind fun _ => ?_
    exact Keeps.pure _
  · refine (Keeps.deviceStep (setPageCache_reads _)).bind fun _ => ?_
    refine (writeRawPages_step fun k hk => touches_pages hni hba hk).bind fun _ => ?_
    exact Keeps.pure _

theorem writeRepeatedPages_step (data : List UInt8) {count : ℕ}
    (haddr : ∀ k < count, Touches nld S (addr + k * nld.writesize.toNat)) :
    Keeps (DeviceStep nld S) (writeRepeatedPages data addr count) := by
  induction count generalizing addr with
  | zero => exact Keeps.pure true
  | succ count ih =>
      have hfirst : Touches nld S addr := by simpa using haddr 0 (by omega)
      unfold writeRepeatedPages
      refine Keeps.getNi_bind fun _ _ => ?_
      refine (Keeps.deviceStep (setPageCache_reads _)).bind fun _ => ?_
      refine Keeps.getNi_bind fun ni hni => ?_
      refine (nmbmWritePhysPage_step hfirst _ _ _).bind fun success => ?_
      refine Keeps.ite (fun _ => Keeps.pure _) (fun _ => ?_)
      refine (Keeps.deviceStep (nmbmReadPhysPage_reads _)).bind fun result => ?_
      refine (Keeps.deviceStep (setPageCache_reads _)).bind fun _ => ?_
      refine Keeps.ite (fun _ => Keeps.pure _) (fun _ => ?_)
      refine Keeps.ite (fun _ => Keeps.pure _) (fun _ => ih fun k hk => ?_)
      have hnext := haddr (k + 1) (by omega)
      rw [Instance.writesize, hni, Nat.add_assoc, Nat.add_comm nld.writesize.toNat,
        ← Nat.succ_mul]
      exact hnext

theorem nmbmWriteRepeatedData_step (hba : ba ∈ S) (data : List UInt8) :
    Keeps (DeviceStep nld S) (nmbmWriteRepeatedData ba data) := by
  unfold nmbmWriteRepeatedData
  refine Keeps.getNi_bind fun ni hni => ?_
  refine Keeps.ite (fun _ => Keeps.pure _) (fun _ => ?_)
  exact writeRepeatedPages_step _ fun k hk => touches_pages hni hba hk

theorem readDataLoop_reads (off fuel size : ℕ) :
    Keeps ReadStep (readDataLoop off fuel size) := by
  induction fuel generalizing off size with
  | zero => exact Keeps.pure _
  | succ fuel ih =>
      unfold readDataLoop
      refine Keeps.ite (fun _ => Keeps.pure _) (fun _ => ?_)
      refine Keeps.reads_getNi_bind fun ni => ?_
      refine (nmbmReadPhysPage_reads _).bind fun result => ?_
      refine (Keeps.when fun _ => setPageCache_reads _).bind fun _ => ?_
      refine Keeps.ite (fun _ => Keeps.pure _) (fun _ => ?_)
      exact (ih _ _).bind fun _ => Keeps.pure _

theorem nmbnReadData_reads (addr size : ℕ) : Keeps ReadStep (nmbnReadData addr size) :=
  readDataLoop_reads addr size size

theorem writeVerifyLoop_step {off fuel : ℕ} {data : List UInt8}
    (haddr : ∀ a, off ≤ a → a < off + data.length → Touches nld S a) :
    Keeps (DeviceStep nld S) (writeVerifyLoop off fuel data) := by
  induction fuel generalizing off data with
  | zero => exact Keeps.pure _
  | succ fuel ih =>
      unfold writeVerifyLoop
      refine Keeps.ite (fun _ => Keeps.pure _) (fun hdata => ?_)
      have hlen : 0 < data.length := List.length_pos_iff.mpr hdata
      refine Keeps.getNi_bind fun ni₀ hni₀ => ?_
      have hpage : Touches nld S (off - off % ni₀.writesize) :=
        touches_page hni₀ (haddr off le_rfl (by omega))
      refine (Keeps.deviceStep (setPageCache_reads _)).bind fun _ => ?_
      refine Keeps.getNi_bind fun ni _ => ?_
      refine (nmbmWritePhysPage_step hpage _ _ _).bind fun success => ?_
      refine Keeps.ite (fun _ => Keeps.pure _) (fun _ => ?_)
      refine (Keeps.deviceStep (nmbmReadPhysPage_reads _)).bind fun result => ?_
      refine (Keeps.deviceStep (setPageCache_reads _)).bind fun _ => ?_
      refine Keeps.ite (fun _ => Keeps.pure _) (fun _ => ?_)
      refine Keeps.ite (fun _ => Keeps.pure _) (fun _ => ih fun a hlo hhi => ?_)
      rw [List.length_drop] at hhi
      have hchunk := List.length_take_le (ni₀.writesize - off % ni₀.writesize) data
      have hchunk' := List.length_take_le'
        (ni₀.writesize - off % ni₀.writesize) data
      exact haddr a (by omega) (by omega)

theorem nmbnWriteVerifyData_step {ni : Instance} (hni : ni.lower = nld) (hba : ba ∈ S)
    {data : List UInt8} (hlen : data.length ≤ ni.erasesize) :
    Keeps (DeviceStep nld S) (nmbnWriteVerifyData (ba2addr ni ba) data) := by
  refine writeVerifyLoop_step fun a hlo hhi => ?_
  obtain ⟨off, rfl⟩ := Nat.exists_eq_add_of_le hlo
  exact touches_ba2addr_add hni hba (by omega)

theorem findSignatureInPages_reads (addr count : ℕ) :
    Keeps ReadStep (findSignatureInPages addr count) := by
  induction count generalizing addr with
  | zero => exact Keeps.pure _
  | succ count ih =>
      unfold findSignatureInPages
      refine Keeps.reads_getNi_bind fun ni => ?_
      refine (nmbnReadData_reads _ _).bind fun result => ?_
      exact Keeps.ite (fun _ => Keeps.pure _) (fun _ => ih _)

theorem findSignatureLoop_reads (limit ba fuel : ℕ) :
    Keeps ReadStep (findSignatureLoop limit ba fuel) := by
  induction fuel generalizing ba with
  | zero => exact Keeps.pure _
  | succ fuel ih =>
      unfold findSignatureLoop
      refine Keeps.ite (fun _ => Keeps.pure _) (fun _ => ?_)
      refine Keeps.reads_getNi_bind fun ni => ?_
      refine (nmbmCheckBadPhysBlock_reads _).bind fun bad => ?_
      refine Keeps.ite (fun _ => ih _) (fun _ => ?_)
      refine (findSignatureInPages_reads _ _).bind fun found => ?_
      cases found with
      | none => exact ih _
      | some sig => exact Keeps.pure _

theorem nmbmFindSignature_reads : Keeps ReadStep nmbmFindSignature :=
  Keeps.reads_getNi_bind fun _ => findSignatureLoop_reads _ _ _

end Nwa50ax.Nmbm
