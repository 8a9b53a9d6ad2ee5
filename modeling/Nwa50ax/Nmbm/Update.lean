import Nwa50ax.Nmbm.Layout

/-!
# Whole table updates

`nmbm_update_info_table` repeats rounds until the tables count as clean.  It
keeps the layout, ends after finitely many rounds, and fails only by setting
the device read-only.
-/

namespace Nwa50ax.Nmbm

open ByteBuffer StateProgram

/-! ## Steps of a whole update -/

def UpdateCall (ni : Instance) : Call → Prop
  | .mgmtBlock n ba =>
      n.setup = ni.setup ∧ ni.mgmtStartBa ≤ ba ∧ ba < ni.mappingBlocksTopBa
  | .markTablesClean n => n.setup = ni.setup
  | .writeMainTable n => n.setup = ni.setup
  | .updateInfoTable _ n _ _ => n.setup = ni.setup
  | _ => False

theorem UpdateCall.of_tableCall {ni : Instance} {c : Call} (h : TableCall ni c) :
    UpdateCall ni c := by
  cases c with
  | mgmtBlock n ba => exact ⟨Instance.setup_of_round h.1, h.2⟩
  | markTablesClean n => exact Instance.setup_of_round h
  | writeMainTable n => exact Instance.setup_of_round h
  | mapBlock n => exact h
  | unmapBlock n => exact h
  | loadInfoTable n tableEndBa => exact h
  | updateInfoTable success n flash tableBlocks => exact False.elim h

theorem UpdateCall.of_setup {ni ni' : Instance} (hsetup : ni'.setup = ni.setup)
    {c : Call} (h : UpdateCall ni' c) : UpdateCall ni c := by
  obtain ⟨hmgmt, htop, -⟩ := Instance.setup_bounds hsetup
  cases c with
  | mgmtBlock n ba => exact ⟨h.1.trans hsetup, hmgmt ▸ h.2.1, htop ▸ h.2.2⟩
  | markTablesClean n => exact Eq.trans h hsetup
  | writeMainTable n => exact Eq.trans h hsetup
  | updateInfoTable success n flash tableBlocks => exact Eq.trans h hsetup
  | mapBlock n => exact h
  | unmapBlock n => exact h
  | loadInfoTable n tableEndBa => exact h

structure UpdateStep (w w' : World) : Prop where
  setup : w'.ni.setup = w.ni.setup
  spoils : Spoils w.ni.mgmtStartBa w.ni.mappingBlocksTopBa w.ni w'.ni
  length : w'.ni.blockState.length = w.ni.blockState.length
  pattern : w'.pattern = w.pattern
  protectedMode : w.ni.protectedMode = true → w'.ni.protectedMode = true
  calls : ∃ calls, w'.calls = w.calls ++ calls ∧ ∀ c ∈ calls, UpdateCall w.ni c
  effects : w.ni.lower.Sound →
    Effects (Set.Ico w.ni.mgmtStartBa w.ni.mappingBlocksTopBa) w w'

section UpdateStep

variable {w w' : World}

theorem UpdateStep.lower (h : UpdateStep w w') : w'.ni.lower = w.ni.lower := by
  have hfield := congrArg Instance.lower h.setup
  exact hfield

theorem UpdateStep.of_tableStep (h : TableStep w w') : UpdateStep w w' where
  setup := Instance.setup_of_round h.round
  spoils := h.spoils
  length := h.length
  pattern := h.pattern
  protectedMode := h.protectedMode
  calls := by
    obtain ⟨calls, hcalls, htable, -⟩ := h.calls
    exact ⟨calls, hcalls, fun c hc => UpdateCall.of_tableCall (htable c hc)⟩
  effects := h.effects

theorem UpdateStep.refl (w : World) : UpdateStep w w :=
  UpdateStep.of_tableStep (TableStep.refl w)

theorem UpdateStep.trans {w₁ w₂ w₃ : World}
    (h : UpdateStep w₁ w₂) (h' : UpdateStep w₂ w₃) : UpdateStep w₁ w₃ := by
  obtain ⟨hmgmt, htop, -⟩ := Instance.setup_bounds h.setup
  refine ⟨h'.setup.trans h.setup, h.spoils.trans (hmgmt ▸ htop ▸ h'.spoils),
    h'.length.trans h.length, h'.pattern.trans h.pattern,
    fun hprot => h'.protectedMode (h.protectedMode hprot), ?_,
    fun hsound => (h.effects hsound).trans
      (hmgmt ▸ htop ▸ h'.effects (h.lower ▸ hsound))⟩
  obtain ⟨calls, hcalls, hupdate⟩ := h.calls
  obtain ⟨calls', hcalls', hupdate'⟩ := h'.calls
  refine ⟨calls ++ calls', by rw [hcalls', hcalls, List.append_assoc], fun c hc => ?_⟩
  rcases List.mem_append.mp hc with hold | hnew
  · exact hupdate c hold
  · exact UpdateCall.of_setup h.setup (hupdate' c hnew)

theorem generateCache_step (w : World) : UpdateStep w (w.mapNi Instance.generateCache) where
  setup := rfl
  spoils _ := .inl rfl
  length := rfl
  pattern := rfl
  protectedMode := id
  calls := ⟨[], (List.append_nil _).symm, by simp⟩
  effects _ := Effects.of_eq rfl rfl

theorem recordUpdate_step (success : Bool) (w : World) :
    UpdateStep w (recordUpdate success w).2 where
  setup := rfl
  spoils _ := .inl rfl
  length := rfl
  pattern := rfl
  protectedMode := id
  calls := by
    refine ⟨[.updateInfoTable success w.ni w.flash w.tableBlocks], rfl, fun c hc => ?_⟩
    rw [List.mem_singleton] at hc
    subst c
    rfl
  effects _ := Effects.of_eq rfl rfl

end UpdateStep

/-! ## One round -/

theorem infoTableImage_ne_nil (ni : Instance) (hdr : InfoTableHeader) :
    infoTableImage ni hdr ≠ [] := by
  unfold infoTableImage nmbmUpdateChecksum overwrite
  simp [toLE]

theorem generateCache_cacheSat (ni : Instance) :
    CacheSat (fun _ => True) ni.generateCache :=
  ⟨infoTableImage_ne_nil _ _, fun _ => .inl fun _ => trivial⟩

theorem Tables.generateCache {PM PB : List UInt8 → Prop} {w : World} (h : Tables PM PB w) :
    Tables PM PB (w.mapNi Instance.generateCache) :=
  h.of_same (SameTables.mapNi rfl) rfl rfl rfl

theorem nmbmUpdateInfoTableOnce_eq {w : World} (hchanged : w.ni.Changed) :
    nmbmUpdateInfoTableOnce false w = writeBothTables (w.mapNi Instance.generateCache) := by
  unfold nmbmUpdateInfoTableOnce
  rw [bind_run]
  have hgen : nmbmGenerateInfoTableCache w = (true, w.mapNi Instance.generateCache) := by
    unfold nmbmGenerateInfoTableCache
    rw [getNi_bind_run, decide_eq_true hchanged]
    rfl
  rw [hgen, ite_run, if_neg (by simp)]

theorem updateInfoTableLoop_succ (rounds : ℕ) (w : World) :
    updateInfoTableLoop (rounds + 1) w =
      if w.ni.Changed then
        if (writeBothTables (w.mapNi Instance.generateCache)).1 = false then
          (false, (writeBothTables (w.mapNi Instance.generateCache)).2)
        else updateInfoTableLoop rounds (writeBothTables (w.mapNi Instance.generateCache)).2
      else (true, w) := by
  rw [updateInfoTableLoop, getNi_bind_run, ite_run]
  by_cases hchanged : w.ni.Changed
  · rw [if_pos hchanged, if_pos hchanged, bind_run, nmbmUpdateInfoTableOnce_eq hchanged, ite_run]
    rfl
  · rw [if_neg hchanged, if_neg hchanged]
    rfl

theorem updateInfoTableLoop_layout (rounds : ℕ) {w : World}
    (htables : Tables (fun _ => True) (fun _ => True) w) :
    UpdateStep w (updateInfoTableLoop rounds w).2 ∧
      Tables (fun _ => True) (fun _ => True) (updateInfoTableLoop rounds w).2 := by
  induction rounds generalizing w with
  | zero => exact ⟨UpdateStep.refl w, htables⟩
  | succ rounds ih =>
      obtain ⟨hround, -⟩ := writeBothTables_rewrites
        (generateCache_cacheSat w.ni) htables.generateCache
      have hstep := (generateCache_step w).trans (UpdateStep.of_tableStep hround.step)
      rw [updateInfoTableLoop_succ]
      split
      · split
        · exact ⟨hstep, hround.layout⟩
        · obtain ⟨hrest, hlayout⟩ := ih hround.layout
          exact ⟨hstep.trans hrest, hlayout⟩
      · exact ⟨UpdateStep.refl w, htables⟩

theorem updateInfoTableLoop_unchanged {n : ℕ} {w : World} (h : ¬w.ni.Changed) (hn : n ≠ 0) :
    updateInfoTableLoop n w = (true, w) := by
  obtain ⟨m, rfl⟩ := Nat.exists_eq_succ_of_ne_zero hn
  rw [Nat.succ_eq_add_one, updateInfoTableLoop_succ, if_neg h]

/-- Every round that goes on has found a new bad block, so more rounds than
there are good blocks change nothing. -/
theorem updateInfoTableLoop_ends (rounds : ℕ) {w : World}
    (htables : Tables (fun _ => True) (fun _ => True) w)
    (hrounds : w.ni.goodBlocks.card + 1 < rounds) :
    (∀ n ≥ rounds, updateInfoTableLoop n w = updateInfoTableLoop rounds w) ∧
      ((updateInfoTableLoop rounds w).1 = true ∨
        (updateInfoTableLoop rounds w).2.ni.protectedMode = true) := by
  induction rounds generalizing w with
  | zero => omega
  | succ rounds ih =>
      by_cases hchanged : w.ni.Changed
      swap
      · have hrun := @updateInfoTableLoop_unchanged (rounds + 1) w hchanged (by omega)
        refine ⟨fun n hn => ?_, .inl (congrArg Prod.fst hrun)⟩
        rw [hrun, updateInfoTableLoop_unchanged hchanged (by omega)]
      obtain ⟨hround, hclean⟩ := writeBothTables_rewrites
        (generateCache_cacheSat w.ni) htables.generateCache
      have hstep := fun n => (updateInfoTableLoop_succ n w).trans (if_pos hchanged)
      generalize writeBothTables (w.mapNi Instance.generateCache) = r at hround hclean hstep
      have hmore : ∀ n ≥ rounds + 1, ∃ m ≥ rounds, n = m + 1 := fun n hn =>
        ⟨n - 1, by omega, by omega⟩
      by_cases hfail : r.1 = false
      · refine ⟨fun n hn => ?_, .inr ?_⟩
        · obtain ⟨m, -, rfl⟩ := hmore n hn
          rw [hstep, hstep, if_pos hfail, if_pos hfail]
        · rw [hstep, if_pos hfail]
          exact hround.failure hfail
      · obtain ⟨hmapping, hgood⟩ := hclean (Bool.not_eq_false _ ▸ hfail)
        have hgood' : r.2.ni.blockStateChanged + r.2.ni.goodBlocks.card ≤ w.ni.goodBlocks.card :=
          hgood
        have hrest : (∀ n ≥ rounds, updateInfoTableLoop n r.2 = updateInfoTableLoop rounds r.2) ∧
            ((updateInfoTableLoop rounds r.2).1 = true ∨
              (updateInfoTableLoop rounds r.2).2.ni.protectedMode = true) := by
          by_cases hagain : r.2.ni.Changed
          · have hcount : r.2.ni.blockStateChanged ≠ 0 :=
              hagain.resolve_right (not_not.mpr hmapping)
            exact ih hround.layout (by omega)
          · have hrun := @updateInfoTableLoop_unchanged rounds r.2 hagain (by omega)
            refine ⟨fun n hn => ?_, .inl (congrArg Prod.fst hrun)⟩
            rw [hrun, updateInfoTableLoop_unchanged hagain (by omega)]
        refine ⟨fun n hn => ?_, ?_⟩
        · obtain ⟨m, hm, rfl⟩ := hmore n hn
          rw [hstep, hstep, if_neg hfail, if_neg hfail]
          exact hrest.1 m hm
        · rw [hstep, if_neg hfail]
          exact hrest.2

theorem updateInfoTableLoop_clean {rounds : ℕ} {w : World}
    (hsuccess : (updateInfoTableLoop rounds w).1 = true) :
    ¬(updateInfoTableLoop rounds w).2.ni.Changed := by
  induction rounds generalizing w with
  | zero => cases hsuccess
  | succ rounds ih =>
      rw [updateInfoTableLoop_succ] at hsuccess ⊢
      split at hsuccess
      · rename_i hchanged
        rw [if_pos hchanged]
        split at hsuccess
        · cases hsuccess
        · rename_i hround
          rw [if_neg hround]
          exact ih hsuccess
      · rename_i hchanged
        rw [if_neg hchanged]
        exact hchanged

/-! ## The update -/

theorem nmbmUpdateInfoTable_run (w : World) :
    nmbmUpdateInfoTable w =
      if w.ni.protectedMode = false then
        let result := updateInfoTableLoop (16 * w.ni.blockState.length + 2) w
        (result.1, (recordUpdate result.1 result.2).2)
      else (true, (recordUpdate true w).2) := by
  unfold nmbmUpdateInfoTable
  rw [getNi_bind_run, bind_run, runIf_run]
  split <;> rfl

theorem nmbmUpdateInfoTable_layout {w : World}
    (htables : Tables (fun _ => True) (fun _ => True) w) :
    UpdateStep w (nmbmUpdateInfoTable w).2 ∧
      Tables (fun _ => True) (fun _ => True) (nmbmUpdateInfoTable w).2 := by
  rw [nmbmUpdateInfoTable_run]
  split
  · obtain ⟨hstep, hlayout⟩ :=
      updateInfoTableLoop_layout (16 * w.ni.blockState.length + 2) htables
    exact ⟨hstep.trans (recordUpdate_step _ _), hlayout.of_same ⟨rfl, rfl, rfl⟩ rfl rfl rfl⟩
  · exact ⟨recordUpdate_step _ _, htables.of_same ⟨rfl, rfl, rfl⟩ rfl rfl rfl⟩

theorem goodBlocks_card_le (ni : Instance) :
    ni.goodBlocks.card ≤ 16 * ni.blockState.length := by
  have hle := Finset.card_filter_le (Finset.range (16 * ni.blockState.length))
    (fun ba => ni.Good ba)
  rw [Finset.card_range] at hle
  exact hle

theorem nmbmUpdateInfoTable_failure {w : World}
    (htables : Tables (fun _ => True) (fun _ => True) w)
    (hfail : (nmbmUpdateInfoTable w).1 = false) :
    (nmbmUpdateInfoTable w).2.ni.protectedMode = true := by
  rw [nmbmUpdateInfoTable_run] at hfail ⊢
  split at hfail
  · rename_i hprot
    rw [if_pos hprot]
    have hrounds := (updateInfoTableLoop_ends (16 * w.ni.blockState.length + 2) htables
      (by have := goodBlocks_card_le w.ni; omega)).2
    exact hrounds.resolve_left (by simp only at hfail; simp [hfail])
  · cases hfail

/-! ## Handing out a spare block -/

theorem walkDescLoop_found {ni : Instance} {ba found steps : ℕ} {nblock : ℤ}
    (hsteps : steps ≤ ba) (hnblock : 0 ≤ nblock)
    (h : walkDescLoop ni ba nblock steps = some found) :
    ba - steps < found ∧ (found : ℤ) + nblock ≤ ba ∧ ni.Good found := by
  induction steps generalizing ba nblock with
  | zero => cases h
  | succ steps ih =>
      unfold walkDescLoop at h
      simp only at h
      by_cases hgood : nmbmGetBlockState ni ba = blockStGood
      · rw [if_pos hgood] at h
        by_cases hdone : nblock - 1 < 0
        · rw [if_pos hdone] at h
          cases h
          exact ⟨by omega, by omega, hgood⟩
        · rw [if_neg hdone] at h
          obtain ⟨hlo, hhi, hfound⟩ := ih (by omega) (by omega) h
          exact ⟨by omega, by omega, hfound⟩
      · rw [if_neg hgood, if_neg (by omega)] at h
        obtain ⟨hlo, hhi, hfound⟩ := ih (by omega) hnblock h
        exact ⟨by omega, by omega, hfound⟩

theorem walkDescLoop_first {ni : Instance} {ba found steps : ℕ}
    (h : walkDescLoop ni ba 0 steps = some found) (hgood : ni.Good ba) : found = ba := by
  cases steps with
  | zero => cases h
  | succ steps =>
      unfold walkDescLoop at h
      simp only at h
      rw [if_pos (show nmbmGetBlockState ni ba = blockStGood from hgood), if_pos (by decide)] at h
      cases h
      rfl

theorem walkDescLoop_none {ni : Instance} {ba steps : ℕ}
    (hsteps : steps ≤ ba) (h : walkDescLoop ni ba 0 steps = none) :
    ∀ b, ba - steps < b → b ≤ ba → ¬ni.Good b := by
  induction steps generalizing ba with
  | zero =>
      intro b hlo hhi
      omega
  | succ steps ih =>
      unfold walkDescLoop at h
      simp only at h
      by_cases hgood : nmbmGetBlockState ni ba = blockStGood
      · rw [if_pos hgood, if_pos (by decide)] at h
        cases h
      · rw [if_neg hgood, if_neg (by decide)] at h
        intro b hlo hhi
        by_cases hb : b = ba
        · subst b
          exact hgood
        · exact ih (by omega) h b (by omega) (by omega)

structure Bounded (ni : Instance) : Prop where
  map_le : ni.mappingBlocksBa ≤ ni.mappingBlocksTopBa
  top_lt : ni.mappingBlocksTopBa < ni.signatureBa
  sig_lt : ni.signatureBa < ni.blockCount
  count_lt : ni.blockCount < 2 ^ 32

theorem Bounded.walk_eq {ni : Instance} (h : Bounded ni) :
    nmbmBlockWalk ni false ni.mappingBlocksTopBa 0 ni.mappingBlocksBa =
      walkDescLoop ni ni.mappingBlocksTopBa 0
        (ni.mappingBlocksTopBa - ni.mappingBlocksBa) := by
  have hmap := h.map_le
  have htop := h.top_lt
  have hsig := h.sig_lt
  have hcount := h.count_lt
  have hlimit : ((ni.mappingBlocksBa : ℤ) % 2 ^ 32).toNat = ni.mappingBlocksBa := by omega
  have hcap : ¬ni.mappingBlocksBa ≥ ni.blockCount := by omega
  unfold nmbmBlockWalk nmbmBlockWalkDesc walkLimit
  rw [hlimit, if_neg hcap]
  rfl

theorem nmbmMapBlock_cases {w : World} (hbounded : Bounded w.ni) (lb : ℕ) :
    (w.ni.mappingBlocksBa = w.ni.mappingBlocksTopBa ∧
      nmbmMapBlock lb w = (false, (record .mapBlock w).2)) ∨
    ((∀ b, w.ni.mappingBlocksBa < b → b ≤ w.ni.mappingBlocksTopBa → ¬w.ni.Good b) ∧
      nmbmMapBlock lb w =
        (false, (nmbmUpdateInfoTable (record .mapBlock w).2).2.mapNi Instance.exhaust)) ∨
    ∃ pb, w.ni.mappingBlocksBa < pb ∧ pb ≤ w.ni.mappingBlocksTopBa ∧ w.ni.Good pb ∧
      (w.ni.Good w.ni.mappingBlocksTopBa → pb = w.ni.mappingBlocksTopBa) ∧
      nmbmMapBlock lb w = (true, (record .mapBlock w).2.mapNi (·.mapTo lb pb)) := by
  have hmap := hbounded.map_le
  have hwalk := hbounded.walk_eq
  unfold nmbmMapBlock
  rw [bind_run, getNi_bind_run, ite_run, record_ni]
  by_cases hempty : w.ni.mappingBlocksBa = w.ni.mappingBlocksTopBa
  · rw [if_pos hempty]
    exact .inl ⟨hempty, rfl⟩
  rw [if_neg hempty]
  have hrange : w.ni.mappingBlocksTopBa - (w.ni.mappingBlocksTopBa - w.ni.mappingBlocksBa) =
      w.ni.mappingBlocksBa := by omega
  cases hfound : nmbmBlockWalk w.ni false w.ni.mappingBlocksTopBa 0 w.ni.mappingBlocksBa with
  | none =>
      have hnone := walkDescLoop_none (by omega) (hwalk.symm.trans hfound)
      rw [hrange] at hnone
      exact .inr (.inl ⟨hnone, rfl⟩)
  | some pb =>
      obtain ⟨hlo, hhi, hgood⟩ :=
        walkDescLoop_found (by omega) le_rfl (hwalk.symm.trans hfound)
      rw [hrange] at hlo
      exact .inr (.inr ⟨pb, hlo, by omega, hgood,
        walkDescLoop_first (hwalk.symm.trans hfound), rfl⟩)

end Nwa50ax.Nmbm
