import Nwa50ax.Nmbm.Mgmt

/-!
# Layout and content of the management area

`Tables` says where the main and the backup table lie and what their images
are.  Every routine that places tables keeps the layout, and a routine that
succeeds leaves only tables with the image that it was given.
-/

namespace Nwa50ax.Nmbm

open ByteBuffer StateProgram

/-! ## Steps of a table update -/

/-- The part of the instance that one round of a table update leaves alone. -/
def Instance.round (ni : Instance) : Instance :=
  { ni with
    pageCache := [], blockState := [], blockStateChanged := 0
    blockMappingChanged := 0, protectedMode := false
    mainTableBa := 0, backupTableBa := 0, mappingBlocksBa := 0 }

theorem Instance.round_of_frame {ni ni' : Instance} (h : ni'.frame = ni.frame) :
    ni'.round = ni.round := by
  have hround := congrArg Instance.round h
  exact hround

def Instance.setup (ni : Instance) : Instance :=
  { ni.round with
    infoTableCache := []
    infoTable := { ni.infoTable with
      magic := 0, version := 0, size := 0, checksum := 0, writeCount := 0 } }

theorem Instance.setup_of_round {ni ni' : Instance} (h : ni'.round = ni.round) :
    ni'.setup = ni.setup := by
  have hsetup := congrArg Instance.setup h
  exact hsetup

theorem Instance.setup_of_frame {ni ni' : Instance} (h : ni'.frame = ni.frame) :
    ni'.setup = ni.setup :=
  Instance.setup_of_round (Instance.round_of_frame h)

def TableCall (ni : Instance) : Call → Prop
  | .mgmtBlock n ba =>
      n.round = ni.round ∧ ni.mgmtStartBa ≤ ba ∧ ba < ni.mappingBlocksTopBa
  | .markTablesClean n => n.round = ni.round
  | .writeMainTable n => n.round = ni.round
  | _ => False

def Spoils (lo hi : ℕ) (ni ni' : Instance) : Prop :=
  ∀ ba, nmbmGetBlockState ni' ba = nmbmGetBlockState ni ba ∨
    (lo ≤ ba ∧ ba < hi ∧ ni.Good ba ∧ nmbmGetBlockState ni' ba = blockStBad)

theorem Spoils.trans {lo hi : ℕ} {ni₁ ni₂ ni₃ : Instance}
    (h : Spoils lo hi ni₁ ni₂) (h' : Spoils lo hi ni₂ ni₃) : Spoils lo hi ni₁ ni₃ := by
  intro ba
  rcases h' ba with hsame | ⟨hlo, hhi, hgood, hbad⟩
  · rw [hsame]
    exact h ba
  · rcases h ba with hsame | ⟨_, _, _, hbad'⟩
    · exact .inr ⟨hlo, hhi, hsame.symm.trans hgood, hbad⟩
    · exact absurd (hbad'.symm.trans hgood) blockStBad_ne_blockStGood

/-- While the state table stands at `st` whenever its change counter is zero,
and at `st` whenever the tables are marked clean, it does so afterwards. -/
def Settles (calls : List Call) (ni ni' : Instance) : Prop :=
  ∀ st, (∀ n, .markTablesClean n ∈ calls → n.blockState = st) →
    (ni.blockStateChanged = 0 → ni.blockState = st) →
    (ni'.blockStateChanged = 0 → ni'.blockState = st)

/-- A step of a table update inside `[mgmt_start_ba, mapping_blocks_top_ba)`. -/
structure TableStep (w w' : World) : Prop where
  round : w'.ni.round = w.ni.round
  spoils : Spoils w.ni.mgmtStartBa w.ni.mappingBlocksTopBa w.ni w'.ni
  length : w'.ni.blockState.length = w.ni.blockState.length
  pattern : w'.pattern = w.pattern
  protectedMode : w.ni.protectedMode = true → w'.ni.protectedMode = true
  mapping : w.ni.blockMappingChanged = 0 → w'.ni.blockMappingChanged = 0
  good : w'.ni.goodBlocks.card ≤ w.ni.goodBlocks.card
  potential : w'.ni.blockStateChanged + w'.ni.goodBlocks.card ≤
    w.ni.blockStateChanged + w.ni.goodBlocks.card
  calls : ∃ calls, w'.calls = w.calls ++ calls ∧
    (∀ c ∈ calls, TableCall w.ni c) ∧ Settles calls w.ni w'.ni
  effects : w.ni.lower.Sound →
    Effects (Set.Ico w.ni.mgmtStartBa w.ni.mappingBlocksTopBa) w w'

section TableStep

variable {w w' : World}

theorem TableStep.lower (h : TableStep w w') : w'.ni.lower = w.ni.lower := by
  have hfield := congrArg Instance.lower h.round
  exact hfield

theorem TableStep.mgmtStartBa (h : TableStep w w') :
    w'.ni.mgmtStartBa = w.ni.mgmtStartBa := by
  have hfield := congrArg Instance.mgmtStartBa h.round
  exact hfield

theorem TableStep.top (h : TableStep w w') :
    w'.ni.mappingBlocksTopBa = w.ni.mappingBlocksTopBa := by
  have hfield := congrArg Instance.mappingBlocksTopBa h.round
  exact hfield

theorem TableStep.signatureBa (h : TableStep w w') :
    w'.ni.signatureBa = w.ni.signatureBa := by
  have hfield := congrArg Instance.signatureBa h.round
  exact hfield

theorem TableCall.of_round {ni ni' : Instance} (hround : ni'.round = ni.round)
    {c : Call} (h : TableCall ni' c) : TableCall ni c := by
  have hstart : ni'.mgmtStartBa = ni.mgmtStartBa := by
    have hfield := congrArg Instance.mgmtStartBa hround
    exact hfield
  have htop : ni'.mappingBlocksTopBa = ni.mappingBlocksTopBa := by
    have hfield := congrArg Instance.mappingBlocksTopBa hround
    exact hfield
  cases c with
  | mgmtBlock n ba => exact ⟨h.1.trans hround, hstart ▸ h.2.1, htop ▸ h.2.2⟩
  | markTablesClean n => exact Eq.trans h hround
  | writeMainTable n => exact Eq.trans h hround
  | mapBlock n => exact h
  | unmapBlock n => exact h
  | loadInfoTable n tableEndBa => exact h
  | updateInfoTable success n flash tableBlocks => exact h

theorem TableStep.trans {w₁ w₂ w₃ : World}
    (h : TableStep w₁ w₂) (h' : TableStep w₂ w₃) : TableStep w₁ w₃ where
  round := h'.round.trans h.round
  spoils := h.spoils.trans (h.mgmtStartBa ▸ h.top ▸ h'.spoils)
  length := h'.length.trans h.length
  pattern := h'.pattern.trans h.pattern
  protectedMode hprot := h'.protectedMode (h.protectedMode hprot)
  mapping hzero := h'.mapping (h.mapping hzero)
  good := h'.good.trans h.good
  potential := h'.potential.trans h.potential
  calls := by
    obtain ⟨calls, hcalls, htable, hsettles⟩ := h.calls
    obtain ⟨calls', hcalls', htable', hsettles'⟩ := h'.calls
    refine ⟨calls ++ calls', by rw [hcalls', hcalls, List.append_assoc], ?_, ?_⟩
    · intro c hc
      rcases List.mem_append.mp hc with hold | hnew
      · exact htable c hold
      · exact TableCall.of_round h.round (htable' c hnew)
    · intro st hclean hst
      exact hsettles' st (fun n hn => hclean n (List.mem_append_right _ hn))
        (hsettles st (fun n hn => hclean n (List.mem_append_left _ hn)) hst)
  effects hsound := (h.effects hsound).trans
    (h.mgmtStartBa ▸ h.top ▸ h'.effects (h.lower ▸ hsound))

theorem TableStep.mapNi {f : Instance → Instance} (hround : (f w.ni).round = w.ni.round)
    (hstate : (f w.ni).blockState = w.ni.blockState)
    (hcount : (f w.ni).blockStateChanged = w.ni.blockStateChanged)
    (hmapping : (f w.ni).blockMappingChanged = w.ni.blockMappingChanged)
    (hprot : w.ni.protectedMode = true → (f w.ni).protectedMode = true) :
    TableStep w (w.mapNi f) where
  round := hround
  spoils ba := .inl (congrArg (nmbmGetBlockStateRaw · ba) hstate)
  length := congrArg List.length hstate
  pattern := rfl
  protectedMode := hprot
  mapping hzero := hmapping.trans hzero
  good := (congrArg Finset.card (goodBlocks_congr hstate)).le
  potential :=
    (congrArg₂ (· + ·) hcount (congrArg Finset.card (goodBlocks_congr hstate))).le
  calls := ⟨[], (List.append_nil _).symm, by simp, fun st _ hst hzero =>
    hstate.trans (hst (hcount.symm.trans hzero))⟩
  effects _ := Effects.of_eq rfl rfl

theorem TableStep.refl (w : World) : TableStep w w where
  round := rfl
  spoils _ := .inl rfl
  length := rfl
  pattern := rfl
  protectedMode := id
  mapping := id
  good := le_rfl
  potential := le_rfl
  calls := ⟨[], (List.append_nil _).symm, by simp, fun _ _ hst => hst⟩
  effects _ := Effects.of_eq rfl rfl

theorem TableStep.withTable (w : World) (place : Placement) :
    TableStep w (w.withTable place) where
  round := rfl
  spoils _ := .inl rfl
  length := rfl
  pattern := rfl
  protectedMode := id
  mapping := id
  good := le_rfl
  potential := le_rfl
  calls := ⟨[], (List.append_nil _).symm, by simp, fun _ _ hst => hst⟩
  effects _ := Effects.of_eq rfl rfl

theorem StatesWorsen.settles {lo hi : ℕ} {ni ni' : Instance} (h : StatesWorsen lo hi ni ni')
    (calls : List Call) : Settles calls ni ni' := by
  intro st _ hst hzero
  have hcount := h.count
  have hzero' : ni.blockStateChanged = 0 := by omega
  rw [h.unchanged (by omega)]
  exact hst hzero'

theorem TableStep.of_mgmtStep {lo hi : ℕ} (h : MgmtStep lo hi w w')
    (hlo : w.ni.mgmtStartBa ≤ lo) (hhi : hi ≤ w.ni.mappingBlocksTopBa) :
    TableStep w w' where
  round := Instance.round_of_frame h.frame
  spoils := (h.states.mono hlo hhi).state
  length := h.states.length
  pattern := h.pattern
  protectedMode hprot := by
    have hfield := congrArg Instance.protectedMode h.frame
    exact Eq.trans hfield hprot
  mapping hzero := by
    have hfield := congrArg Instance.blockMappingChanged h.frame
    exact Eq.trans hfield hzero
  good := h.states.good
  potential := h.states.potential
  calls := by
    obtain ⟨calls, hcalls, hmgmt⟩ := h.calls
    refine ⟨calls, hcalls, fun c hc => ?_, h.states.settles calls⟩
    obtain ⟨n, ba, rfl, hframe, hlo', hhi'⟩ := hmgmt c hc
    exact ⟨Instance.round_of_frame hframe, hlo.trans hlo', lt_of_lt_of_le hhi' hhi⟩
  effects hsound := (h.effects hsound).mono (Set.Ico_subset_Ico hlo hhi)

theorem nmbmMarkTablesClean_step (w : World) :
    TableStep w (nmbmMarkTablesClean w).2 where
  round := rfl
  spoils _ := .inl rfl
  length := rfl
  pattern := rfl
  protectedMode := id
  mapping _ := rfl
  good := le_rfl
  potential := Nat.add_le_add_right (Nat.zero_le _) _
  calls := by
    refine ⟨[.markTablesClean w.ni], rfl, ?_, fun st hclean _ _ => ?_⟩
    · intro c hc
      rw [List.mem_singleton] at hc
      subst c
      rfl
    · exact hclean w.ni List.mem_cons_self
  effects _ := Effects.of_eq rfl rfl

theorem record_writeMainTable_step (w : World) :
    TableStep w (record .writeMainTable w).2 where
  round := rfl
  spoils _ := .inl rfl
  length := rfl
  pattern := rfl
  protectedMode := id
  mapping := id
  good := le_rfl
  potential := le_rfl
  calls := by
    refine ⟨[.writeMainTable w.ni], rfl, ?_, fun st _ hst => hst⟩
    intro c hc
    rw [List.mem_singleton] at hc
    subst c
    rfl
  effects _ := Effects.of_eq rfl rfl

end TableStep

/-! ## Tables -/

def tableImage (w : World) (start : ℕ) : List UInt8 :=
  tableBytes w.ni w.flash (w.tableBlocks start) w.ni.infoTableSize

/-- A table starts at `start`, occupies blocks of `[lo, hi)`, and has an image
that satisfies `P`. -/
structure TableAt (P : List UInt8 → Prop) (w : World) (start lo hi : ℕ) : Prop where
  start_mem : start ∈ w.tableBlocks start
  start_le : ∀ ba ∈ w.tableBlocks start, start ≤ ba
  lt_hi : ∀ ba ∈ w.tableBlocks start, ba < hi
  lo_le : lo ≤ start
  image : w.ni.lower.Sound → P (tableImage w start)

/-- The first block behind the main table that belongs to something else. -/
def Instance.mainLimit (ni : Instance) : ℕ :=
  if ni.backupTableBa = 0 then ni.mappingBlocksBa else ni.backupTableBa

/-- Layout of the management area, with the properties that the images of the
main and of the backup table have. -/
structure Tables (PM PB : List UInt8 → Prop) (w : World) : Prop where
  mgmt_le : w.ni.mgmtStartBa ≤ w.ni.mappingBlocksBa
  map_le : w.ni.mappingBlocksBa ≤ w.ni.mappingBlocksTopBa
  top_lt : w.ni.mappingBlocksTopBa < w.ni.signatureBa
  main : w.ni.mainTableBa ≠ 0 →
    TableAt PM w w.ni.mainTableBa w.ni.mgmtStartBa w.ni.mainLimit
  backup : w.ni.backupTableBa ≠ 0 →
    TableAt PB w w.ni.backupTableBa w.ni.mgmtStartBa w.ni.mappingBlocksBa

structure SameTables (w w' : World) : Prop where
  flash : w'.flash = w.flash
  tableBlocks : w'.tableBlocks = w.tableBlocks
  setup : w'.ni.setup = w.ni.setup

theorem SameTables.mapNi {w : World} {f : Instance → Instance}
    (hsetup : (f w.ni).setup = w.ni.setup) : SameTables w (w.mapNi f) :=
  ⟨rfl, rfl, hsetup⟩

section TableAt

variable {P Q : List UInt8 → Prop} {w w' : World} {start lo hi : ℕ}

theorem TableAt.start_lt (h : TableAt P w start lo hi) : start < hi :=
  h.lt_hi start h.start_mem

theorem TableAt.weaken (h : TableAt P w start lo hi) {lo' hi' : ℕ}
    (hlo : lo' ≤ lo) (hhi : hi ≤ hi') : TableAt P w start lo' hi' :=
  ⟨h.start_mem, h.start_le, fun ba hba => (h.lt_hi ba hba).trans_le hhi,
    hlo.trans h.lo_le, h.image⟩

theorem TableAt.imp (h : TableAt P w start lo hi) (hPQ : ∀ image, P image → Q image) :
    TableAt Q w start lo hi :=
  ⟨h.start_mem, h.start_le, h.lt_hi, h.lo_le, fun hsound => hPQ _ (h.image hsound)⟩

theorem TableAt.congr (h : TableAt P w start lo hi)
    (hblocks : w'.tableBlocks start = w.tableBlocks start)
    (hlower : w'.ni.lower = w.ni.lower)
    (hsize : w'.ni.infoTableSize = w.ni.infoTableSize)
    (hpages : w.ni.lower.Sound →
      ∀ ba ∈ w.tableBlocks start, w'.flash.pages ba = w.flash.pages ba) :
    TableAt P w' start lo hi := by
  refine ⟨hblocks ▸ h.start_mem, hblocks ▸ h.start_le, hblocks ▸ h.lt_hi, h.lo_le,
    fun hsound => ?_⟩
  have hsound' : w.ni.lower.Sound := hlower ▸ hsound
  have himage : tableImage w' start = tableImage w start := by
    unfold tableImage
    rw [hblocks, hsize]
    exact tableBytes_congr _ hlower (hpages hsound')
  rw [himage]
  exact h.image hsound'

theorem Instance.setup_sizes {ni ni' : Instance} (h : ni'.setup = ni.setup) :
    ni'.lower = ni.lower ∧ ni'.infoTableSize = ni.infoTableSize := by
  have hfields := (Instance.mk.injEq ..).mp h
  tauto

theorem TableAt.of_same (h : TableAt P w start lo hi) (hsame : SameTables w w') :
    TableAt P w' start lo hi :=
  h.congr (by rw [hsame.tableBlocks]) (Instance.setup_sizes hsame.setup).1
    (Instance.setup_sizes hsame.setup).2 fun _ _ _ => by rw [hsame.flash]

theorem TableAt.of_mgmtStep (h : TableAt P w start lo hi) {a b : ℕ}
    (hstep : MgmtStep a b w w') (hdisjoint : hi ≤ a ∨ b ≤ start) :
    TableAt P w' start lo hi := by
  obtain ⟨hlower, hsize⟩ := Instance.setup_sizes (Instance.setup_of_frame hstep.frame)
  refine h.congr (by rw [hstep.tableBlocks]) hlower hsize ?_
  intro hsound ba hba
  have hlt := h.lt_hi ba hba
  have hle := h.start_le ba hba
  exact hstep.pages hsound (by omega)

theorem TableAt.withTable (h : TableAt P w start lo hi) {place : Placement}
    (hne : start ≠ place.startBa) : TableAt P (w.withTable place) start lo hi :=
  h.congr (if_neg hne) rfl rfl fun _ _ _ => rfl

end TableAt

/-! ## Placing one table -/

/-- The cache holds an image that satisfies `P`, and it has the size that is
read back, unless `P` asks for nothing. -/
def CacheSat (P : List UInt8 → Prop) (ni : Instance) : Prop :=
  ni.infoTableCache ≠ [] ∧ (ni.lower.Sound → (∀ image, P image) ∨
    (ni.infoTableCache.length = ni.infoTableSize ∧ P ni.infoTableCache))

theorem CacheSat.of_round {P : List UInt8 → Prop} {ni ni' : Instance}
    (h : CacheSat P ni) (hround : ni'.round = ni.round) : CacheSat P ni' := by
  have hcache : ni'.infoTableCache = ni.infoTableCache := by
    have hfield := congrArg Instance.infoTableCache hround
    exact hfield
  have hsize : ni'.infoTableSize = ni.infoTableSize := by
    have hfield := congrArg Instance.infoTableSize hround
    exact hfield
  have hlower : ni'.lower = ni.lower := by
    have hfield := congrArg Instance.lower hround
    exact hfield
  unfold CacheSat
  rw [hcache, hsize, hlower]
  exact h

/-- An attempt to place a table with an image that satisfies `P` in `[lo, hi)`. -/
def PlacesTable (P : List UInt8 → Prop) (lo hi : ℕ) (w : World)
    (result : Option Placement × World) : Prop :=
  ∃ w₁, MgmtStep lo hi w w₁ ∧
    (result = (none, w₁) ∨
      ∃ place, result = (some place, w₁.withTable place) ∧ PlacedIn lo hi place ∧
        TableAt P (w₁.withTable place) place.startBa lo place.endBa)

theorem nmbmWriteInfoTable_places {P : List UInt8 → Prop} {w : World}
    (hcache : CacheSat P w.ni) (lo hi : ℕ) :
    PlacesTable P lo hi w (nmbmWriteInfoTable lo hi w) := by
  obtain ⟨w₁, hstep, hnone | ⟨place, hsome, hplaced, hcontent⟩⟩ :=
    nmbmWriteInfoTable_spec lo hi hcache.1
  · exact ⟨w₁, hstep, .inl hnone⟩
  · refine ⟨w₁, hstep, .inr ⟨place, hsome, hplaced, ?_⟩⟩
    have hblocks : (w₁.withTable place).tableBlocks place.startBa = place.blocks := if_pos rfl
    refine ⟨hblocks ▸ hplaced.start_mem, hblocks ▸ hplaced.start_le,
      hblocks ▸ hplaced.lt_end, hplaced.lo_le, fun hsound => ?_⟩
    have hsound' : w.ni.lower.Sound := hstep.lower ▸ hsound
    obtain hall | ⟨hlength, hP⟩ := hcache.2 hsound'
    · exact hall _
    have hsize : w₁.ni.infoTableSize = w.ni.infoTableSize := by
      have hfield := congrArg Instance.infoTableSize hstep.frame
      exact hfield
    unfold tableImage
    rw [hblocks]
    change P (tableBytes w₁.ni w₁.flash place.blocks w₁.ni.infoTableSize)
    rw [hsize, ← hlength, tableBytes_lower hstep.lower, hcontent hsound']
    exact hP

theorem PlacesTable.step {P : List UInt8 → Prop} {lo hi : ℕ} {w : World}
    {result : Option Placement × World} (h : PlacesTable P lo hi w result)
    (hlo : w.ni.mgmtStartBa ≤ lo) (hhi : hi ≤ w.ni.mappingBlocksTopBa) :
    TableStep w result.2 := by
  obtain ⟨w₁, hstep, rfl | ⟨place, rfl, -, -⟩⟩ := h
  · exact TableStep.of_mgmtStep hstep hlo hhi
  · exact (TableStep.of_mgmtStep hstep hlo hhi).trans (TableStep.withTable w₁ place)

theorem PlacesTable.mono {P : List UInt8 → Prop} {lo hi lo' hi' : ℕ} {w : World}
    {result : Option Placement × World} (h : PlacesTable P lo hi w result)
    (hlo : lo' ≤ lo) (hhi : hi ≤ hi') : PlacesTable P lo' hi' w result := by
  obtain ⟨w₁, hstep, hnone | ⟨place, hsome, hplaced, htable⟩⟩ := h
  · exact ⟨w₁, hstep.mono hlo hhi, .inl hnone⟩
  · refine ⟨w₁, hstep.mono hlo hhi, .inr ⟨place, hsome, ?_, htable.weaken hlo le_rfl⟩⟩
    exact ⟨hplaced.start_mem, hplaced.start_le, hlo.trans hplaced.lo_le, hplaced.lt_end,
      hplaced.end_le.trans hhi⟩

theorem PlacesTable.after {P : List UInt8 → Prop} {lo hi : ℕ} {w w₁ : World}
    {result : Option Placement × World} (h : PlacesTable P lo hi w₁ result)
    (hstep : MgmtStep lo hi w w₁) : PlacesTable P lo hi w result := by
  obtain ⟨w₂, hstep₂, hresult⟩ := h
  exact ⟨w₂, hstep.trans hstep₂, hresult⟩

theorem writeTableDownwards_places {P : List UInt8 → Prop} {w : World}
    (hcache : CacheSat P w.ni) (ba : ℕ) {tries : ℕ} (htries : tries ≤ ba + 1) :
    PlacesTable P (ba + 1 - tries) w.ni.mappingBlocksTopBa w
      (writeTableDownwards ba tries w) := by
  induction tries generalizing ba w with
  | zero => exact ⟨w, MgmtStep.refl _ _ w, .inl rfl⟩
  | succ tries ih =>
      have hwrite := (nmbmWriteInfoTable_places hcache ba w.ni.mappingBlocksTopBa).mono
        (by omega : ba + 1 - (tries + 1) ≤ ba) le_rfl
      unfold writeTableDownwards
      rw [getNi_bind_run, bind_run]
      obtain ⟨w₁, hstep, hrun | ⟨place, hrun, hplaced, htable⟩⟩ := hwrite
      · rw [hrun]
        have htop : w₁.ni.mappingBlocksTopBa = w.ni.mappingBlocksTopBa := by
          have hfield := congrArg Instance.mappingBlocksTopBa hstep.frame
          exact hfield
        cases tries with
        | zero => exact ⟨w₁, hstep, .inl rfl⟩
        | succ tries =>
            have hrest := ih (hcache.of_round (Instance.round_of_frame hstep.frame))
              (ba - 1) (by omega)
            rw [htop, show ba - 1 + 1 - (tries + 1) = ba + 1 - (tries + 1 + 1) by omega]
              at hrest
            exact hrest.after hstep
      · rw [hrun]
        exact ⟨w₁, hstep, .inr ⟨place, rfl, hplaced, htable⟩⟩

theorem walkAscLoop_range {ni : Instance} {ba found steps : ℕ} {nblock : ℤ}
    (h : walkAscLoop ni ba nblock steps = some found) : ba ≤ found := by
  induction steps generalizing ba nblock with
  | zero => cases h
  | succ steps ih =>
      unfold walkAscLoop at h
      simp only at h
      generalize (if nmbmGetBlockState ni ba = blockStGood then nblock - 1 else nblock) =
        remaining at h
      by_cases hdone : remaining < 0
      · rw [if_pos hdone] at h
        cases h
        exact le_rfl
      · rw [if_neg hdone] at h
        exact (Nat.le_succ ba).trans (ih h)

theorem tryReserveLoop_range {ni : Instance} {ba found tries : ℕ} {limit nblocks : ℤ}
    (h : tryReserveLoop ni ba limit nblocks tries = some found) : ba ≤ found := by
  induction tries generalizing nblocks with
  | zero => cases h
  | succ tries ih =>
      unfold tryReserveLoop at h
      cases hwalk : nmbmBlockWalk ni true ba nblocks limit with
      | none =>
          rw [hwalk] at h
          exact ih h
      | some nba =>
          rw [hwalk] at h
          cases h
          exact walkAscLoop_range hwalk

theorem reserveTableBlocks_range {ni : Instance} {ba found : ℕ}
    (h : reserveTableBlocks ni ba = some found) : ba ≤ found :=
  tryReserveLoop_range h

/-! ## Rebuilding both tables -/

/-- The tables have been marked clean on the way from `w` to `w'`. -/
def Cleaned (w w' : World) : Prop :=
  w'.ni.blockMappingChanged = 0 ∧
    w'.ni.blockStateChanged + w'.ni.goodBlocks.card ≤ w.ni.goodBlocks.card

theorem Cleaned.of_clean {w w₁ w' : World} (h : TableStep w w₁)
    (h' : TableStep (nmbmMarkTablesClean w₁).2 w') : Cleaned w w' := by
  refine ⟨h'.mapping rfl, h'.potential.trans ?_⟩
  have hgood : (nmbmMarkTablesClean w₁).2.ni.goodBlocks.card ≤ w.ni.goodBlocks.card := h.good
  exact (Nat.zero_add _).le.trans hgood

theorem Cleaned.before {w w₁ w' : World} (hclean : Cleaned w₁ w') (h : TableStep w w₁) :
    Cleaned w w' :=
  ⟨hclean.1, hclean.2.trans h.good⟩

/-- What a routine that writes the cache to the tables has achieved.  Without a
backup table at the start, success means that the tables were marked clean. -/
structure Rewrites (P : List UInt8 → Prop) (w : World) (result : Bool × World) : Prop where
  step : TableStep w result.2
  success : result.1 = true → Tables P P result.2
  failure : result.1 = false → result.2.ni.protectedMode = true
  cleaned : result.1 = true → w.ni.backupTableBa = 0 → Cleaned w result.2
  layout : Tables (fun _ => True) (fun _ => True) result.2

theorem Tables.imp {PM PB QM QB : List UInt8 → Prop} {w : World} (h : Tables PM PB w)
    (hM : ∀ image, PM image → QM image) (hB : ∀ image, PB image → QB image) :
    Tables QM QB w :=
  ⟨h.mgmt_le, h.map_le, h.top_lt, fun hne => (h.main hne).imp hM,
    fun hne => (h.backup hne).imp hB⟩

theorem Tables.layout {PM PB : List UInt8 → Prop} {w : World} (h : Tables PM PB w) :
    Tables (fun _ => True) (fun _ => True) w :=
  h.imp (fun _ _ => trivial) (fun _ _ => trivial)

theorem Rewrites.of_tables {P : List UInt8 → Prop} {w w' : World}
    (hstep : TableStep w w') (htables : Tables P P w')
    (hclean : w.ni.backupTableBa = 0 → Cleaned w w') : Rewrites P w (true, w') :=
  ⟨hstep, fun _ => htables, nofun, fun _ => hclean, htables.layout⟩

theorem Rewrites.after {P : List UInt8 → Prop} {w w₁ : World} {result : Bool × World}
    (h : Rewrites P w₁ result) (hstep : TableStep w w₁)
    (hbackup : w.ni.backupTableBa = 0 → w₁.ni.backupTableBa = 0) : Rewrites P w result :=
  ⟨hstep.trans h.step, h.success, h.failure,
    fun hsuccess hzero => (h.cleaned hsuccess (hbackup hzero)).before hstep, h.layout⟩

theorem Instance.frame_pointers {ni ni' : Instance} (h : ni'.frame = ni.frame) :
    ni'.mgmtStartBa = ni.mgmtStartBa ∧ ni'.mainTableBa = ni.mainTableBa ∧
      ni'.backupTableBa = ni.backupTableBa ∧ ni'.mappingBlocksBa = ni.mappingBlocksBa ∧
      ni'.mappingBlocksTopBa = ni.mappingBlocksTopBa ∧ ni'.signatureBa = ni.signatureBa := by
  have hfields := (Instance.mk.injEq ..).mp h
  tauto

theorem Instance.setup_bounds {ni ni' : Instance} (h : ni'.setup = ni.setup) :
    ni'.mgmtStartBa = ni.mgmtStartBa ∧ ni'.mappingBlocksTopBa = ni.mappingBlocksTopBa ∧
      ni'.signatureBa = ni.signatureBa := by
  have hfields := (Instance.mk.injEq ..).mp h
  tauto

section Tables

variable {PM PB QM QB P : List UInt8 → Prop} {w w' : World} {place : Placement} {lo hi : ℕ}

theorem Tables.of_pointers (hsame : SameTables w w')
    (hmgmt : w.ni.mgmtStartBa ≤ w'.ni.mappingBlocksBa)
    (hmap : w'.ni.mappingBlocksBa ≤ w.ni.mappingBlocksTopBa)
    (htop : w.ni.mappingBlocksTopBa < w.ni.signatureBa)
    (hmain : w'.ni.mainTableBa ≠ 0 →
      TableAt PM w w'.ni.mainTableBa w.ni.mgmtStartBa w'.ni.mainLimit)
    (hbackup : w'.ni.backupTableBa ≠ 0 →
      TableAt PB w w'.ni.backupTableBa w.ni.mgmtStartBa w'.ni.mappingBlocksBa) :
    Tables PM PB w' := by
  obtain ⟨hmgmt', htop', hsig'⟩ := Instance.setup_bounds hsame.setup
  constructor
  · rw [hmgmt']
    exact hmgmt
  · rw [htop']
    exact hmap
  · rw [htop', hsig']
    exact htop
  · intro hne
    rw [hmgmt']
    exact (hmain hne).of_same hsame
  · intro hne
    rw [hmgmt']
    exact (hbackup hne).of_same hsame

theorem Tables.of_same (h : Tables PM PB w) (hsame : SameTables w w')
    (hmain : w'.ni.mainTableBa = w.ni.mainTableBa)
    (hbackup : w'.ni.backupTableBa = w.ni.backupTableBa)
    (hmap : w'.ni.mappingBlocksBa = w.ni.mappingBlocksBa) : Tables PM PB w' := by
  have hlimit : w'.ni.mainLimit = w.ni.mainLimit := by
    unfold Instance.mainLimit
    rw [hbackup, hmap]
  refine Tables.of_pointers hsame (hmap ▸ h.mgmt_le) (hmap ▸ h.map_le) h.top_lt ?_ ?_
  · rw [hmain, hlimit]
    exact h.main
  · rw [hbackup, hmap]
    exact h.backup

theorem Tables.markClean (h : Tables PM PB w) : Tables PM PB (nmbmMarkTablesClean w).2 :=
  h.of_same ⟨rfl, rfl, rfl⟩ rfl rfl rfl

def Instance.anchors (ni : Instance) : LowerDevice × ℕ × ℕ × ℕ × ℕ × ℕ × ℕ :=
  (ni.lower, ni.infoTableSize, ni.mgmtStartBa, ni.mainTableBa, ni.backupTableBa,
    ni.mappingBlocksBa, ni.signatureBa)

theorem Tables.mapNi (h : Tables PM PB w) {f : Instance → Instance}
    (hanchors : (f w.ni).anchors = w.ni.anchors)
    (hmap : w.ni.mappingBlocksBa ≤ (f w.ni).mappingBlocksTopBa)
    (htop : (f w.ni).mappingBlocksTopBa < w.ni.signatureBa) : Tables PM PB (w.mapNi f) := by
  simp only [Instance.anchors, Prod.mk.injEq] at hanchors
  obtain ⟨hlower, hsize, hmgmt, hmain, hbackup, hmap', hsig⟩ := hanchors
  have hlimit : (f w.ni).mainLimit = w.ni.mainLimit := by
    unfold Instance.mainLimit
    rw [hbackup, hmap']
  constructor
  · exact hmgmt.le.trans (h.mgmt_le.trans hmap'.ge)
  · exact hmap'.le.trans hmap
  · exact htop.trans_le hsig.ge
  · intro hne
    have hold := h.main fun hzero => hne (hmain.trans hzero)
    rw [← hmain, ← hmgmt, ← hlimit] at hold
    exact hold.congr rfl hlower hsize fun _ _ _ => rfl
  · intro hne
    have hold := h.backup fun hzero => hne (hbackup.trans hzero)
    rw [← hbackup, ← hmgmt, ← hmap'] at hold
    exact hold.congr rfl hlower hsize fun _ _ _ => rfl

theorem Tables.of_frame (h : Tables QM QB w) (hframe : w'.ni.frame = w.ni.frame)
    (hmain : w.ni.mainTableBa ≠ 0 →
      TableAt PM w' w.ni.mainTableBa w.ni.mgmtStartBa w.ni.mainLimit)
    (hbackup : w.ni.backupTableBa ≠ 0 →
      TableAt PB w' w.ni.backupTableBa w.ni.mgmtStartBa w.ni.mappingBlocksBa) :
    Tables PM PB w' := by
  obtain ⟨hmgmt', hmain', hbackup', hmap', htop', hsig'⟩ := Instance.frame_pointers hframe
  constructor
  · rw [hmgmt', hmap']
    exact h.mgmt_le
  · rw [hmap', htop']
    exact h.map_le
  · rw [htop', hsig']
    exact h.top_lt
  · unfold Instance.mainLimit at hmain ⊢
    rw [hmain', hmgmt', hbackup', hmap']
    exact hmain
  · rw [hbackup', hmgmt', hmap']
    exact hbackup

theorem Tables.mainLimit_le (h : Tables PM PB w) :
    w.ni.mainLimit ≤ w.ni.mappingBlocksBa := by
  unfold Instance.mainLimit
  split
  · exact le_rfl
  · rename_i hne
    exact (h.backup hne).start_lt.le

theorem Tables.of_mgmtStep (h : Tables PM PB w) (hstep : MgmtStep lo hi w w')
    (hlo : w.ni.mappingBlocksBa ≤ lo) : Tables PM PB w' :=
  h.of_frame hstep.frame
    (fun hne => (h.main hne).of_mgmtStep hstep (.inl (h.mainLimit_le.trans hlo)))
    (fun hne => (h.backup hne).of_mgmtStep hstep (.inl hlo))

theorem mainLimit_le_of_lt (hlt : place.startBa < place.endBa)
    (hmap : w.ni.mappingBlocksBa = place.endBa) (hbackup : w.ni.backupTableBa = place.startBa) :
    place.startBa ≤ w.ni.mainLimit := by
  unfold Instance.mainLimit
  split <;> omega

theorem Tables.setBackup (hsame : SameTables (w.withTable place) w')
    (hmain' : w'.ni.mainTableBa = w.ni.mainTableBa)
    (hbackup' : w'.ni.backupTableBa = place.startBa)
    (hmap' : w'.ni.mappingBlocksBa = place.endBa)
    (hplaced : PlacedIn lo w.ni.mappingBlocksTopBa place)
    (htable : TableAt P (w.withTable place) place.startBa lo place.endBa)
    (hmgmt : w.ni.mgmtStartBa ≤ lo)
    (htop : w.ni.mappingBlocksTopBa < w.ni.signatureBa)
    (hmain : w.ni.mainTableBa ≠ 0 →
      TableAt PM w w.ni.mainTableBa w.ni.mgmtStartBa lo) : Tables PM P w' := by
  have hstart := hplaced.lo_le
  have hend := hplaced.start_lt_end
  refine Tables.of_pointers hsame ?_ (hmap' ▸ hplaced.end_le) htop ?_ ?_
  · rw [hmap']
    exact hmgmt.trans (hstart.trans hend.le)
  · intro hne
    rw [hmain'] at hne ⊢
    have hold := hmain hne
    have hlt := hold.start_lt
    exact TableAt.weaken (hold.withTable (by omega)) le_rfl
      (hstart.trans (mainLimit_le_of_lt hend hmap' hbackup'))
  · intro _
    rw [hbackup', hmap']
    exact htable.weaken hmgmt le_rfl

theorem Tables.of_gap (h : Tables PM PB w) (hstep : MgmtStep lo hi w w')
    (hmain : w.ni.mainTableBa ≠ 0 →
      TableAt PM w w.ni.mainTableBa w.ni.mgmtStartBa lo)
    (hhi : w.ni.backupTableBa ≠ 0 → hi ≤ w.ni.backupTableBa)
    (hlimit : lo ≤ w.ni.mainLimit) : Tables PM PB w' :=
  h.of_frame hstep.frame
    (fun hne => ((hmain hne).of_mgmtStep hstep (.inl le_rfl)).weaken le_rfl hlimit)
    (fun hne => (h.backup hne).of_mgmtStep hstep (.inr (hhi hne)))

end Tables

/-- A routine that never fails has added to tables that have been written. -/
structure Extends (P : List UInt8 → Prop) (w : World) (result : Bool × World) : Prop where
  success : result.1 = true
  step : TableStep w result.2
  tables : Tables P P result.2

theorem addBackupTable_extends {P : List UInt8 → Prop} {w w₁ : World}
    {place : Placement} {lo : ℕ} (htables : Tables P P w)
    (hwrite : TableStep w (w₁.withTable place))
    (hstep : MgmtStep lo w.ni.mappingBlocksTopBa w w₁) (hlo : w.ni.mappingBlocksBa ≤ lo)
    (hplaced : PlacedIn lo w.ni.mappingBlocksTopBa place)
    (htable : TableAt P (w₁.withTable place) place.startBa lo place.endBa) :
    Extends P w (true, (nmbmEraseRange w.ni.mappingBlocksBa place.startBa
      ((w₁.withTable place).mapNi
        (·.setBackupTable place.startBa |>.setMappingBlocks place.endBa))).2) := by
  obtain ⟨hmgmt₁, -, -, hmap₁, htop₁, -⟩ := Instance.frame_pointers hstep.frame
  have htables₁ := htables.of_mgmtStep hstep hlo
  have hmain : w₁.ni.mainTableBa ≠ 0 →
      TableAt P w₁ w₁.ni.mainTableBa w₁.ni.mgmtStartBa w.ni.mappingBlocksBa :=
    fun hne => (htables₁.main hne).weaken le_rfl (hmap₁ ▸ htables₁.mainLimit_le)
  have hstart : w.ni.mappingBlocksBa ≤ place.startBa := hlo.trans hplaced.lo_le
  have hset : Tables P P ((w₁.withTable place).mapNi
      (·.setBackupTable place.startBa |>.setMappingBlocks place.endBa)) :=
    Tables.setBackup (SameTables.mapNi rfl) rfl rfl rfl (htop₁ ▸ hplaced) htable
      (hmgmt₁ ▸ htables.mgmt_le.trans hlo) htables₁.top_lt
      (fun hne => (hmain hne).weaken le_rfl hlo)
  have hmove : TableStep (w₁.withTable place) ((w₁.withTable place).mapNi
      (·.setBackupTable place.startBa |>.setMappingBlocks place.endBa)) :=
    TableStep.mapNi rfl rfl rfl rfl id
  have herase := nmbmEraseRange_step w.ni.mappingBlocksBa place.startBa
    ((w₁.withTable place).mapNi
      (·.setBackupTable place.startBa |>.setMappingBlocks place.endBa))
  refine ⟨rfl, ?_, ?_⟩
  · refine (hwrite.trans hmove).trans (TableStep.of_mgmtStep herase ?_ ?_)
    · exact hmgmt₁ ▸ htables.mgmt_le
    · exact htop₁ ▸ hplaced.start_lt_end.le.trans hplaced.end_le
  · refine hset.of_gap herase (fun hne => ?_) (fun _ => le_rfl) ?_
    · have hold := hmain hne
      have hlt := hold.start_lt
      exact TableAt.of_same (hold.withTable (by omega)) (SameTables.mapNi rfl)
    · exact hstart.trans (mainLimit_le_of_lt hplaced.start_lt_end rfl rfl)

theorem rebuildBackupTable_extends {P : List UInt8 → Prop} {w : World}
    (hcache : CacheSat P w.ni) (htables : Tables P P w) :
    Extends P w (rebuildBackupTable w.ni.mappingBlocksBa w) := by
  unfold rebuildBackupTable
  rw [getNi_bind_run]
  cases hreserve : reserveTableBlocks w.ni w.ni.mappingBlocksBa with
  | none => exact ⟨rfl, TableStep.refl w, htables⟩
  | some nextStartBa =>
      have hnext : w.ni.mappingBlocksBa ≤ nextStartBa := reserveTableBlocks_range hreserve
      have hwrite := nmbmWriteInfoTable_places hcache nextStartBa w.ni.mappingBlocksTopBa
      have hwriteStep := hwrite.step (htables.mgmt_le.trans hnext) le_rfl
      simp only [bind_run]
      obtain ⟨w₁, hstep, hrun | ⟨place, hrun, hplaced, htable⟩⟩ := hwrite
      · rw [hrun] at hwriteStep ⊢
        exact ⟨rfl, hwriteStep, htables.of_mgmtStep hstep hnext⟩
      · rw [hrun] at hwriteStep ⊢
        exact addBackupTable_extends htables hwriteStep hstep hnext hplaced htable

theorem rebuildTables_rewrites {P : List UInt8 → Prop} {w : World}
    (hcache : CacheSat P w.ni) (hmgmt : w.ni.mgmtStartBa ≤ w.ni.mappingBlocksTopBa)
    (htop : w.ni.mappingBlocksTopBa < w.ni.signatureBa)
    (hmain : w.ni.mainTableBa = 0) (hbackup : w.ni.backupTableBa = 0)
    (hmap : w.ni.mappingBlocksBa = w.ni.mappingBlocksTopBa) :
    Rewrites P w (rebuildMainTable w) := by
  have hwrite := nmbmWriteInfoTable_places hcache w.ni.mgmtStartBa w.ni.mappingBlocksTopBa
  have hwriteStep := hwrite.step le_rfl le_rfl
  unfold rebuildMainTable
  rw [getNi_bind_run, bind_run]
  obtain ⟨w₁, hstep, hrun | ⟨place, hrun, hplaced, htable⟩⟩ := hwrite
  · rw [hrun] at hwriteStep ⊢
    obtain ⟨hmgmt₁, hmain₁, hbackup₁, hmap₁, htop₁, hsig₁⟩ :=
      Instance.frame_pointers hstep.frame
    have hprotect : TableStep w₁ (w₁.mapNi Instance.setProtected) :=
      TableStep.mapNi rfl rfl rfl rfl fun _ => rfl
    refine ⟨hwriteStep.trans hprotect, nofun, fun _ => rfl, nofun, ?_⟩
    refine Tables.of_pointers (SameTables.mapNi rfl) ?_ ?_ ?_ ?_ ?_
    · rw [hmgmt₁]
      exact hmgmt.trans (hmap.symm.trans hmap₁.symm).le
    · rw [htop₁]
      exact (hmap₁.trans hmap).le
    · rw [htop₁, hsig₁]
      exact htop
    · exact fun hne => absurd (hmain₁.trans hmain) hne
    · exact fun hne => absurd (hbackup₁.trans hbackup) hne
  · rw [hrun] at hwriteStep ⊢
    obtain ⟨hmgmt₁, hmain₁, hbackup₁, hmap₁, htop₁, hsig₁⟩ :=
      Instance.frame_pointers hstep.frame
    have hmove : TableStep (w₁.withTable place) ((w₁.withTable place).mapNi
        (·.setMainTable place.startBa |>.setMappingBlocks place.endBa)) :=
      TableStep.mapNi rfl rfl rfl rfl id
    have hset : Tables P P ((w₁.withTable place).mapNi
        (·.setMainTable place.startBa |>.setMappingBlocks place.endBa)) := by
      refine Tables.of_pointers (SameTables.mapNi rfl) ?_ ?_ ?_ ?_ ?_
      · exact hmgmt₁ ▸ hplaced.lo_le.trans hplaced.start_lt_end.le
      · exact htop₁ ▸ hplaced.end_le
      · exact htop₁ ▸ hsig₁ ▸ htop
      · intro _
        refine (htable.weaken hmgmt₁.le le_rfl).weaken le_rfl (le_of_eq ?_)
        exact (if_pos (hbackup₁.trans hbackup)).symm
      · exact fun hne => absurd (hbackup₁.trans hbackup) hne
    have hclean := nmbmMarkTablesClean_step ((w₁.withTable place).mapNi
        (·.setMainTable place.startBa |>.setMappingBlocks place.endBa))
    have hsteps := (hwriteStep.trans hmove).trans hclean
    have hrest := rebuildBackupTable_extends (hcache.of_round hsteps.round) hset.markClean
    refine ⟨hsteps.trans hrest.step, fun _ => hrest.tables, fun hfail => ?_, fun _ _ => ?_,
      hrest.tables.layout⟩
    · exact absurd (hrest.success.symm.trans hfail) (by decide)
    · exact Cleaned.of_clean (hwriteStep.trans hmove) hrest.step

theorem nmbmRebuildInfoTable_rewrites {P : List UInt8 → Prop} {w : World}
    (hcache : CacheSat P w.ni) (hmgmt : w.ni.mgmtStartBa ≤ w.ni.mappingBlocksTopBa)
    (htop : w.ni.mappingBlocksTopBa < w.ni.signatureBa) :
    Rewrites P w (nmbmRebuildInfoTable w) := by
  have hdrop : TableStep w (w.mapNi Instance.dropTables) := TableStep.mapNi rfl rfl rfl rfl id
  have hrest : Rewrites P (w.mapNi Instance.dropTables)
      (rebuildMainTable (w.mapNi Instance.dropTables)) :=
    rebuildTables_rewrites (hcache.of_round rfl) hmgmt htop rfl rfl rfl
  exact hrest.after hdrop fun _ => rfl

/-! ## Rescuing the main table -/

theorem Tables.promote {P : List UInt8 → Prop} {w : World}
    (hmgmt : w.ni.mgmtStartBa ≤ w.ni.mappingBlocksBa)
    (hmap : w.ni.mappingBlocksBa ≤ w.ni.mappingBlocksTopBa)
    (htop : w.ni.mappingBlocksTopBa < w.ni.signatureBa)
    (hbackup : TableAt P w w.ni.backupTableBa w.ni.mgmtStartBa w.ni.mappingBlocksBa) :
    Tables P P (w.mapNi Instance.promoteBackupTable) :=
  Tables.of_pointers (SameTables.mapNi rfl) hmgmt hmap htop (fun _ => hbackup)
    (fun hne => absurd rfl hne)

theorem promoteBackupTable_step (w : World) :
    TableStep w (w.mapNi Instance.promoteBackupTable) :=
  TableStep.mapNi rfl rfl rfl rfl id

theorem writeMainBelow_rewrites {P : List UInt8 → Prop} {w : World} {tmp : Placement}
    (hcache : CacheSat P w.ni)
    (htmp : TableAt P w tmp.startBa w.ni.mgmtStartBa tmp.endBa)
    (hend : tmp.endBa ≤ w.ni.mappingBlocksTopBa)
    (htop : w.ni.mappingBlocksTopBa < w.ni.signatureBa) :
    Rewrites P w (writeMainBelow tmp w) := by
  have hmove : TableStep w (w.mapNi (·.setMappingBlocks tmp.endBa)) :=
    TableStep.mapNi rfl rfl rfl rfl id
  have hlt := htmp.start_lt
  have htmp₀ : TableAt P (w.mapNi (·.setMappingBlocks tmp.endBa)) tmp.startBa
      w.ni.mgmtStartBa tmp.endBa := htmp.of_same (SameTables.mapNi rfl)
  have hwrite := nmbmWriteInfoTable_places (w := w.mapNi (·.setMappingBlocks tmp.endBa))
    (hcache.of_round rfl) (w.mapNi (·.setMappingBlocks tmp.endBa)).ni.mgmtStartBa tmp.startBa
  have hwriteStep := hmove.trans (hwrite.step le_rfl (hlt.le.trans hend))
  unfold writeMainBelow
  rw [bind_run, modifyNi_run, getNi_bind_run, bind_run]
  obtain ⟨w₁, hstep, hrun | ⟨place, hrun, hplaced, htable⟩⟩ := hwrite
  · rw [hrun] at hwriteStep ⊢
    obtain ⟨hmgmt₁, -, -, hmap₁, htop₁, hsig₁⟩ := Instance.frame_pointers hstep.frame
    have htmp₁ := htmp₀.of_mgmtStep hstep (.inr le_rfl)
    have hset : Tables P P (w₁.mapNi (·.setMainTable tmp.startBa |>.setBackupTable 0)) := by
      refine Tables.of_pointers (SameTables.mapNi rfl) ?_ ?_ ?_ ?_ ?_
      · exact hmgmt₁ ▸ hmap₁ ▸ htmp.lo_le.trans hlt.le
      · exact htop₁ ▸ hmap₁ ▸ hend
      · exact htop₁ ▸ hsig₁ ▸ htop
      · exact fun _ => htmp₁.weaken hmgmt₁.le hmap₁.ge
      · exact fun hne => absurd rfl hne
    have hpoint : TableStep w₁ (w₁.mapNi (·.setMainTable tmp.startBa |>.setBackupTable 0)) :=
      TableStep.mapNi rfl rfl rfl rfl id
    exact Rewrites.of_tables ((hwriteStep.trans hpoint).trans (nmbmMarkTablesClean_step _))
      hset.markClean fun _ => Cleaned.of_clean (hwriteStep.trans hpoint) (TableStep.refl _)
  · rw [hrun] at hwriteStep ⊢
    obtain ⟨hmgmt₁, -, -, hmap₁, htop₁, hsig₁⟩ := Instance.frame_pointers hstep.frame
    have hplace := hplaced.start_lt_end
    have hbelow := hplaced.end_le
    have htmp₁ : TableAt P (w₁.withTable place) tmp.startBa w.ni.mgmtStartBa tmp.endBa :=
      (htmp₀.of_mgmtStep hstep (.inr le_rfl)).withTable (by omega)
    have hpoint : TableStep (w₁.withTable place)
        ((w₁.withTable place).mapNi (·.setMainTable place.startBa)) :=
      TableStep.mapNi rfl rfl rfl rfl id
    have hclean := nmbmMarkTablesClean_step
      ((w₁.withTable place).mapNi (·.setMainTable place.startBa))
    simp only [bind_run, modifyNi_run, if_pos hbelow, pure_run]
    have hlast : TableStep (nmbmMarkTablesClean ((w₁.withTable place).mapNi
        (·.setMainTable place.startBa))).2 ((nmbmMarkTablesClean ((w₁.withTable place).mapNi
        (·.setMainTable place.startBa))).2.mapNi (·.setBackupTable tmp.startBa)) :=
      TableStep.mapNi rfl rfl rfl rfl id
    refine Rewrites.of_tables (((hwriteStep.trans hpoint).trans hclean).trans hlast) ?_
      fun _ => Cleaned.of_clean (hwriteStep.trans hpoint) hlast
    have hsame : SameTables (w₁.withTable place)
        ((nmbmMarkTablesClean ((w₁.withTable place).mapNi
          (·.setMainTable place.startBa))).2.mapNi (·.setBackupTable tmp.startBa)) :=
      ⟨rfl, rfl, rfl⟩
    refine Tables.of_pointers hsame ?_ ?_ ?_ ?_ ?_
    · exact hmgmt₁ ▸ hmap₁ ▸ htmp.lo_le.trans hlt.le
    · exact htop₁ ▸ hmap₁ ▸ hend
    · exact htop₁ ▸ hsig₁ ▸ htop
    · intro _
      refine htable.weaken hmgmt₁.le (hbelow.trans ?_)
      exact mainLimit_le_of_lt hlt hmap₁ rfl
    · exact fun _ => htmp₁.weaken hmgmt₁.le hmap₁.ge

theorem nmbmRescueMainInfoTable_rewrites {P : List UInt8 → Prop} {w : World}
    (hcache : CacheSat P w.ni)
    (hmgmt : w.ni.mgmtStartBa ≤ w.ni.mappingBlocksBa)
    (hmap : w.ni.mappingBlocksBa ≤ w.ni.mappingBlocksTopBa)
    (htop : w.ni.mappingBlocksTopBa < w.ni.signatureBa) (hne : w.ni.backupTableBa ≠ 0)
    (hbackup : TableAt P w w.ni.backupTableBa w.ni.mgmtStartBa w.ni.mappingBlocksBa) :
    Rewrites P w (nmbmRescueMainInfoTable w) := by
  unfold nmbmRescueMainInfoTable
  rw [getNi_bind_run]
  cases hreserve : reserveTableBlocks w.ni w.ni.mappingBlocksBa with
  | none =>
      exact Rewrites.of_tables (promoteBackupTable_step w)
        (Tables.promote hmgmt hmap htop hbackup) fun hzero => absurd hzero hne
  | some writeBa =>
      have hwriteBa := reserveTableBlocks_range hreserve
      have hwrite := writeTableDownwards_places hcache writeBa
        (by omega : writeBa + 1 - w.ni.mappingBlocksBa ≤ writeBa + 1)
      rw [show writeBa + 1 - (writeBa + 1 - w.ni.mappingBlocksBa) = w.ni.mappingBlocksBa
        by omega] at hwrite
      have hwriteStep := hwrite.step hmgmt le_rfl
      simp only [bind_run]
      obtain ⟨w₁, hstep, hrun | ⟨tmp, hrun, hplaced, htable⟩⟩ := hwrite
      · rw [hrun] at hwriteStep ⊢
        obtain ⟨hmgmt₁, -, hbackup₁, hmap₁, htop₁, hsig₁⟩ :=
          Instance.frame_pointers hstep.frame
        refine Rewrites.of_tables (hwriteStep.trans (promoteBackupTable_step w₁)) ?_
          fun hzero => absurd hzero hne
        refine Tables.promote (hmgmt₁ ▸ hmap₁ ▸ hmgmt) (hmap₁ ▸ htop₁ ▸ hmap)
          (htop₁ ▸ hsig₁ ▸ htop) ?_
        rw [hbackup₁, hmgmt₁, hmap₁]
        exact hbackup.of_mgmtStep hstep (.inl le_rfl)
      · rw [hrun] at hwriteStep ⊢
        obtain ⟨hmgmt₁, -, -, -, htop₁, hsig₁⟩ := Instance.frame_pointers hstep.frame
        refine Rewrites.after ?_ hwriteStep fun hzero => absurd hzero hne
        exact writeMainBelow_rewrites (hcache.of_round hwriteStep.round)
          (htable.weaken (hmgmt₁ ▸ hmgmt) le_rfl) (htop₁ ▸ hplaced.end_le)
          (htop₁ ▸ hsig₁ ▸ htop)

/-! ## One round of an update -/

theorem writeMainTable_rewrites {P PM : List UInt8 → Prop} {w : World} {limit : ℕ}
    (hcache : CacheSat P w.ni) (htables : Tables PM P w)
    (hlimit : limit =
      if w.ni.backupTableBa = 0 then w.ni.mappingBlocksTopBa else w.ni.backupTableBa) :
    Rewrites P w (writeMainTable limit w) := by
  have hmgmtTop := htables.mgmt_le.trans htables.map_le
  have hlimitTop : limit ≤ w.ni.mappingBlocksTopBa := by
    rw [hlimit]
    split
    · exact le_rfl
    · rename_i hne
      exact (htables.backup hne).start_lt.le.trans htables.map_le
  unfold writeMainTable
  rw [getNi_bind_run, ite_run]
  by_cases hmain : w.ni.mainTableBa = 0
  · rw [if_pos hmain]
    exact nmbmRebuildInfoTable_rewrites hcache hmgmtTop htables.top_lt
  rw [if_neg hmain, bind_run, bind_run]
  have hrecord := record_writeMainTable_step w
  have hsame₀ : SameTables w (record .writeMainTable w).2 := ⟨rfl, rfl, rfl⟩
  have hwrite := nmbmWriteInfoTable_places (w := (record .writeMainTable w).2)
    (hcache.of_round rfl) w.ni.mainTableBa limit
  have hwriteStep := hrecord.trans (hwrite.step (htables.main hmain).lo_le hlimitTop)
  obtain ⟨w₁, hstep, hrun | ⟨place, hrun, hplaced, htable⟩⟩ := hwrite
  · rw [hrun] at hwriteStep ⊢
    obtain ⟨hmgmt₁, -, hbackup₁, hmap₁, htop₁, hsig₁⟩ := Instance.frame_pointers hstep.frame
    have htop : w₁.ni.mappingBlocksTopBa < w₁.ni.signatureBa := by
      rw [htop₁, hsig₁]
      exact htables.top_lt
    refine Rewrites.after ?_ hwriteStep hbackup₁.trans
    simp only [ite_run]
    by_cases hbackup : w.ni.backupTableBa = 0
    · rw [if_pos hbackup]
      exact nmbmRebuildInfoTable_rewrites (hcache.of_round hwriteStep.round)
        (hmgmt₁ ▸ htop₁ ▸ hmgmtTop) htop
    · rw [if_neg hbackup] at hlimit ⊢
      refine nmbmRescueMainInfoTable_rewrites (hcache.of_round hwriteStep.round)
        (hmgmt₁ ▸ hmap₁ ▸ htables.mgmt_le) (hmap₁ ▸ htop₁ ▸ htables.map_le) htop
        (hbackup₁ ▸ hbackup) ?_
      rw [hbackup₁, hmgmt₁, hmap₁]
      exact ((htables.backup hbackup).of_same hsame₀).of_mgmtStep hstep (.inr hlimit.le)
  · rw [hrun] at hwriteStep ⊢
    have hplace := hplaced.start_lt_end
    have hend := hplaced.end_le
    obtain ⟨hmgmt₁, -, hbackup₁, hmap₁, htop₁, hsig₁⟩ := Instance.frame_pointers hstep.frame
    have htop : (w₁.withTable place).ni.mappingBlocksTopBa <
        (w₁.withTable place).ni.signatureBa := htop₁ ▸ hsig₁ ▸ htables.top_lt
    have hmove : TableStep (w₁.withTable place)
        ((w₁.withTable place).mapNi (·.setMainTable place.startBa)) :=
      TableStep.mapNi rfl rfl rfl rfl id
    simp only [bind_run, modifyNi_run, when_run, pure_run]
    by_cases hbackup : w.ni.backupTableBa = 0
    · rw [if_pos hbackup]
      have hmove' : TableStep ((w₁.withTable place).mapNi (·.setMainTable place.startBa))
          (((w₁.withTable place).mapNi (·.setMainTable place.startBa)).mapNi
            (·.setMappingBlocks place.endBa)) := TableStep.mapNi rfl rfl rfl rfl id
      refine Rewrites.of_tables (((hwriteStep.trans hmove).trans hmove').trans
        (nmbmMarkTablesClean_step _)) (Tables.markClean ?_)
        fun _ => Cleaned.of_clean ((hwriteStep.trans hmove).trans hmove') (TableStep.refl _)
      have hsame : SameTables (w₁.withTable place)
          (((w₁.withTable place).mapNi (·.setMainTable place.startBa)).mapNi
            (·.setMappingBlocks place.endBa)) := ⟨rfl, rfl, rfl⟩
      refine Tables.of_pointers hsame ?_ ?_ htop ?_ ?_
      · exact hmgmt₁ ▸ (htables.main hmain).lo_le.trans (hplaced.lo_le.trans hplace.le)
      · exact htop₁ ▸ hend.trans hlimitTop
      · intro _
        refine htable.weaken (hmgmt₁ ▸ (htables.main hmain).lo_le) (le_of_eq ?_)
        exact (if_pos (hbackup₁.trans hbackup)).symm
      · exact fun hne => absurd (hbackup₁.trans hbackup) hne
    · rw [if_neg hbackup] at hlimit ⊢
      refine Rewrites.of_tables ((hwriteStep.trans hmove).trans
        (nmbmMarkTablesClean_step _)) (Tables.markClean ?_)
        fun _ => Cleaned.of_clean (hwriteStep.trans hmove) (TableStep.refl _)
      have htable' := (htables.backup hbackup).of_same hsame₀
      refine Tables.of_pointers (w := w₁.withTable place) ⟨rfl, rfl, rfl⟩ ?_ ?_ htop ?_ ?_
      · exact hmgmt₁ ▸ hmap₁ ▸ htables.mgmt_le
      · exact htop₁ ▸ hmap₁ ▸ htables.map_le
      · intro _
        refine htable.weaken (hmgmt₁ ▸ (htables.main hmain).lo_le) (hend.trans (le_of_eq ?_))
        rw [hlimit]
        exact (hbackup₁.symm.trans (if_neg (hbackup₁ ▸ hbackup)).symm)
      · intro _
        have hkept := (htable'.of_mgmtStep hstep (.inr hlimit.le)).withTable
          (by omega : w.ni.backupTableBa ≠ place.startBa)
        exact hbackup₁ ▸ hmgmt₁ ▸ hmap₁ ▸ hkept

section Backup

variable {P PM PB : List UInt8 → Prop} {w w₁ : World}

theorem Tables.main_below (htables : Tables PM PB w) (hbackup : w.ni.backupTableBa ≠ 0)
    (hstep : MgmtStep w.ni.backupTableBa w.ni.mappingBlocksTopBa w w₁) :
    w₁.ni.mainTableBa ≠ 0 →
      TableAt PM w₁ w₁.ni.mainTableBa w₁.ni.mgmtStartBa w.ni.backupTableBa := by
  obtain ⟨hmgmt₁, hmain₁, -, -, -, -⟩ := Instance.frame_pointers hstep.frame
  have hlimit : w.ni.mainLimit = w.ni.backupTableBa := if_neg hbackup
  rw [hmain₁, hmgmt₁]
  intro hne
  have hold := htables.main hne
  rw [hlimit] at hold
  exact hold.of_mgmtStep hstep (.inl le_rfl)

theorem Tables.afterBackupLost (htables : Tables PM PB w) (hbackup : w.ni.backupTableBa ≠ 0)
    (hstep : MgmtStep w.ni.backupTableBa w.ni.mappingBlocksTopBa w w₁) :
    Tables PM P (w₁.mapNi Instance.dropBackupTable) := by
  obtain ⟨hmgmt₁, -, hbackup₁, -, htop₁, hsig₁⟩ := Instance.frame_pointers hstep.frame
  have hold := htables.backup hbackup
  refine Tables.of_pointers (SameTables.mapNi rfl) ?_ ?_ ?_ ?_ (fun hne => absurd rfl hne)
  · exact (hmgmt₁.le.trans hold.lo_le).trans hbackup₁.ge
  · exact (hbackup₁.le.trans hold.start_lt.le).trans (htables.map_le.trans htop₁.ge)
  · exact htop₁ ▸ hsig₁ ▸ htables.top_lt
  · exact fun hne => (htables.main_below hbackup hstep hne).weaken le_rfl hbackup₁.ge

theorem Tables.afterBackupPlaced (htables : Tables PM PB w)
    (hbackup : w.ni.backupTableBa ≠ 0)
    (hstep : MgmtStep w.ni.backupTableBa w.ni.mappingBlocksTopBa w w₁) {place : Placement}
    (hplaced : PlacedIn w.ni.backupTableBa w.ni.mappingBlocksTopBa place)
    (htable : TableAt P (w₁.withTable place) place.startBa w.ni.backupTableBa place.endBa) :
    Tables PM P ((w₁.withTable place).mapNi
      (·.setBackupTable place.startBa |>.setMappingBlocks place.endBa)) := by
  obtain ⟨hmgmt₁, -, -, -, htop₁, hsig₁⟩ := Instance.frame_pointers hstep.frame
  exact Tables.setBackup (SameTables.mapNi rfl) rfl rfl rfl (htop₁ ▸ hplaced) htable
    (hmgmt₁ ▸ (htables.backup hbackup).lo_le) (htop₁ ▸ hsig₁ ▸ htables.top_lt)
    (htables.main_below hbackup hstep)

end Backup

theorem writeBothTables_rewrites {P PM PB : List UInt8 → Prop} {w : World}
    (hcache : CacheSat P w.ni) (htables : Tables PM PB w) :
    Rewrites P w (writeBothTables w) ∧
      ((writeBothTables w).1 = true → Cleaned w (writeBothTables w).2) := by
  unfold writeBothTables
  rw [getNi_bind_run, ite_run]
  by_cases hbackup : w.ni.backupTableBa = 0
  · rw [if_pos hbackup]
    have hsingle : Tables PM P w := ⟨htables.mgmt_le, htables.map_le, htables.top_lt,
      htables.main, fun hne => absurd hbackup hne⟩
    have hmain := writeMainTable_rewrites hcache hsingle (if_pos hbackup).symm
    exact ⟨hmain, fun hsuccess => hmain.cleaned hsuccess hbackup⟩
  rw [if_neg hbackup, bind_run]
  have hwrite := nmbmWriteInfoTable_places hcache w.ni.backupTableBa w.ni.mappingBlocksTopBa
  have hwriteStep := hwrite.step (htables.backup hbackup).lo_le le_rfl
  obtain ⟨w₁, hstep, hrun | ⟨place, hrun, hplaced, htable⟩⟩ := hwrite
  · rw [hrun] at hwriteStep ⊢
    have htop : w₁.ni.mappingBlocksTopBa = w.ni.mappingBlocksTopBa :=
      (Instance.frame_pointers hstep.frame).2.2.2.2.1
    have hdrop : TableStep w₁ (w₁.mapNi Instance.dropBackupTable) :=
      TableStep.mapNi rfl rfl rfl rfl id
    have hsteps := hwriteStep.trans hdrop
    have hmain := writeMainTable_rewrites (hcache.of_round hsteps.round)
      (htables.afterBackupLost hbackup hstep) htop.symm
    exact ⟨hmain.after hsteps fun hzero => absurd hzero hbackup,
      fun hsuccess => (hmain.cleaned hsuccess rfl).before hsteps⟩
  · rw [hrun] at hwriteStep ⊢
    have hset := htables.afterBackupPlaced hbackup hstep hplaced htable
    have hmove : TableStep (w₁.withTable place) ((w₁.withTable place).mapNi
        (·.setBackupTable place.startBa |>.setMappingBlocks place.endBa)) :=
      TableStep.mapNi rfl rfl rfl rfl id
    have hsteps := (hwriteStep.trans hmove).trans (nmbmMarkTablesClean_step _)
    have hne : place.startBa ≠ 0 := by
      have hle := hplaced.lo_le
      omega
    have hmain := writeMainTable_rewrites (hcache.of_round hsteps.round) hset.markClean
      (if_neg hne).symm
    exact ⟨hmain.after hsteps fun hzero => absurd hzero hbackup,
      fun _ => Cleaned.of_clean (hwriteStep.trans hmove) hmain.step⟩

end Nwa50ax.Nmbm
