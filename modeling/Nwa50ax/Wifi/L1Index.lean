import Nwa50ax.Wifi.L1Rounds

/-!
# The reverse indices of the L1 profile

The loop over the devices enters all their names.  A profile is loaded as described
exactly when every device with two bands gives its `ext`, `apcli` and `wds` prefixes
and the device names differ, because a default is one text and not one per band.
-/

namespace Nwa50ax.Wifi.L1

open LuaPattern Tokens Writes

/-! ## The indices after the loop -/

section Run

variable {devs : ℕ → Settings} {rs rs' : List Ref} {t t' t'' : Ridx}

/-- The names of some records were entered, and nothing else was changed. -/
structure Indexed (devs : ℕ → Settings) (rs : List Ref) (t t' : Ridx) : Prop where
  own : ∀ r ∈ rs, ∀ name ∈ refNames devs r, t'.ifname name = some r
  frame : ∀ name, (∀ r ∈ rs, name ∉ refNames devs r) → t'.ifname name = t.ifname name
  ownDevice : ∀ r ∈ rs, t'.devname (refDevice devs r) = some r
  frameDevice : ∀ name, (∀ r ∈ rs, refDevice devs r ≠ name) → t'.devname name = t.devname name

structure Distinct (devs : ℕ → Settings) (rs : List Ref) : Prop where
  names : (rs.flatMap (refNames devs)).Nodup
  devices : (rs.map (refDevice devs)).Nodup

theorem Distinct.left (h : Distinct devs (rs ++ rs')) : Distinct devs rs := by
  constructor
  · have hnames := h.names
    rw [List.flatMap_append] at hnames
    exact hnames.of_append_left
  · have hdevices := h.devices
    rw [List.map_append] at hdevices
    exact hdevices.of_append_left

theorem Distinct.right (h : Distinct devs (rs ++ rs')) : Distinct devs rs' := by
  constructor
  · have hnames := h.names
    rw [List.flatMap_append] at hnames
    exact hnames.of_append_right
  · have hdevices := h.devices
    rw [List.map_append] at hdevices
    exact hdevices.of_append_right

theorem Indexed.append (hdistinct : Distinct devs (rs ++ rs')) (h : Indexed devs rs t t')
    (h' : Indexed devs rs' t' t'') : Indexed devs (rs ++ rs') t t'' := by
  have hnames := hdistinct.names
  rw [List.flatMap_append, List.nodup_append'] at hnames
  have hdevices := hdistinct.devices
  rw [List.map_append, List.nodup_append'] at hdevices
  constructor
  · intro r hr name hname
    rcases List.mem_append.mp hr with hr | hr
    · rw [h'.frame, h.own r hr name hname]
      intro r' hr' hname'
      exact hnames.2.2 (List.mem_flatMap.mpr ⟨r, hr, hname⟩) (List.mem_flatMap.mpr ⟨r', hr', hname'⟩)
    · exact h'.own r hr name hname
  · intro name hname
    rw [h'.frame name fun r hr => hname r (List.mem_append_right rs hr),
      h.frame name fun r hr => hname r (List.mem_append_left rs' hr)]
  · intro r hr
    rcases List.mem_append.mp hr with hr | hr
    · rw [h'.frameDevice, h.ownDevice r hr]
      intro r' hr' hname'
      exact hdevices.2.2 (List.mem_map_of_mem hr) (hname' ▸ List.mem_map_of_mem hr')
    · exact h'.ownDevice r hr
  · intro name hname
    rw [h'.frameDevice name fun r hr => hname r (List.mem_append_right rs hr),
      h.frameDevice name fun r hr => hname r (List.mem_append_left rs' hr)]

variable {k : ℕ}

theorem mainNames_length {dev : Settings} (h : IsDevice dev) :
    (mainNames dev).length = 1 ∨ (mainNames dev).length = 2 := by
  obtain ⟨main, hmain, -, hlength⟩ := h.main
  rw [mainNames, hmain]
  exact hlength

theorem indexDevice_indexed (hdev : IsDevice (devs k))
    (hgiven : (mainNames (devs k)).length = 2 → GivesPrefixes (devs k))
    (hdistinct : Distinct devs (bandRefs devs k)) (t : Ridx) :
    ∃ t', indexDevice k (withDefaults (k + 1) (devs k)) t = some t' ∧
      Indexed devs (bandRefs devs k) t t' := by
  rcases mainNames_length hdev with hone | htwo
  · have hrefs : bandRefs devs k = [⟨k, none⟩] := by
      rw [bandRefs, bandsOf, if_neg (by omega)]
      rfl
    refine ⟨_, indexDevice_one hdev hone t, ?_⟩
    rw [hrefs]
    constructor
    · intro r hr name hname
      obtain rfl := List.mem_singleton.mp hr
      refine writeAll_agree ⟨(name, ⟨k, none⟩), List.mem_map.mpr ⟨name, hname, rfl⟩, rfl⟩ ?_
      intro w hw _
      obtain ⟨name', -, rfl⟩ := List.mem_map.mp hw
      rfl
    · intro name hname
      apply writeAll_other
      intro w hw hsame
      obtain ⟨name', hname', rfl⟩ := List.mem_map.mp hw
      exact hname _ (List.mem_singleton.mpr rfl) (hsame ▸ hname')
    · intro r hr
      obtain rfl := List.mem_singleton.mp hr
      exact Function.update_self _ _ _
    · intro name hname
      exact Function.update_of_ne (hname _ (List.mem_singleton.mpr rfl)).symm _ _
  · have hrefs : bandRefs devs k = [⟨k, some 1⟩, ⟨k, some 2⟩] := by
      rw [bandRefs, bandsOf, if_pos htwo]
      rfl
    rw [hrefs] at hdistinct ⊢
    obtain ⟨ifname', hown, hframe, hround⟩ :=
      indexDevice_two hdev htwo (hgiven htwo) hdistinct.names t
    have hdevice : deviceName k (devs k) (some 1) ≠ deviceName k (devs k) (some 2) := by
      have hdevices := hdistinct.devices
      simpa [refDevice] using hdevices
    refine ⟨_, hround, ?_⟩
    constructor
    · intro r hr name hname
      rcases List.mem_pair.mp hr with rfl | rfl
      · exact hown 1 (by decide) name hname
      · exact hown 2 (by decide) name hname
    · intro name hname
      apply hframe
      intro j hj
      have hj' : j = 1 ∨ j = 2 := by simpa [bands] using hj
      rcases hj' with rfl | rfl
      · exact hname ⟨k, some 1⟩ (List.mem_pair.mpr (Or.inl rfl))
      · exact hname ⟨k, some 2⟩ (List.mem_pair.mpr (Or.inr rfl))
    · intro r hr
      rcases List.mem_pair.mp hr with rfl | rfl
      · exact (Function.update_of_ne hdevice _ _).trans (Function.update_self _ _ _)
      · exact Function.update_self _ _ _
    · intro name hname
      have hne1 := hname ⟨k, some 1⟩ (List.mem_pair.mpr (Or.inl rfl))
      have hne2 := hname ⟨k, some 2⟩ (List.mem_pair.mpr (Or.inr rfl))
      exact (Function.update_of_ne hne2.symm _ _).trans (Function.update_of_ne hne1.symm _ _)

theorem indexDevices_indexed (m k : ℕ) (hdev : ∀ j, k ≤ j → j < k + m → IsDevice (devs j))
    (hgiven : ∀ j, k ≤ j → j < k + m → (mainNames (devs j)).length = 2 → GivesPrefixes (devs j))
    (hdistinct : Distinct devs ((List.range' k m).flatMap (bandRefs devs))) (t : Ridx) :
    ∃ t', indexDevices k ((List.range' k m).map fun j => withDefaults (j + 1) (devs j)) t =
        some t' ∧ Indexed devs ((List.range' k m).flatMap (bandRefs devs)) t t' := by
  induction m generalizing k t with
  | zero => exact ⟨t, rfl, by constructor <;> simp⟩
  | succ m ih =>
      rw [List.range'_succ, List.flatMap_cons] at hdistinct ⊢
      obtain ⟨t1, hround, hfirst⟩ := indexDevice_indexed (hdev k le_rfl (by omega))
        (hgiven k le_rfl (by omega)) hdistinct.left t
      obtain ⟨t2, hrun, hrest⟩ := ih (k + 1) (fun j hj hj' => hdev j (by omega) (by omega))
        (fun j hj hj' => hgiven j (by omega) (by omega)) hdistinct.right t1
      refine ⟨t2, ?_, hfirst.append hdistinct hrest⟩
      rw [List.map_cons, indexDevices, hround]
      exact hrun

end Run

/-! ## Loading -/

section Load

variable {lines : List Text} {file : List Line} {n k : ℕ}

theorem loadL1Profile_eq (hlines : List.Forall₂ Renders lines file) (hprofile : IsProfile file n) :
    loadL1Profile lines =
      (indexDevices 0 ((List.range n).map fun j => withDefaults (j + 1) (settings file j))
        Ridx.empty).map fun ridx =>
          ⟨(List.range n).map fun j => withDefaults (j + 1) (settings file j), ridx⟩ := by
  have hmain : ∀ j, 0 ≤ j → j < 0 + n → settings file j mainIfname ≠ none := by
    intro j _ hj
    obtain ⟨v, hv, -⟩ := hprofile.main j (by omega)
    rw [hv]
    exact Option.some_ne_none v
  have hdefaults := addDefaults_eq 0 n hmain
  rw [← List.range_eq_range'] at hdefaults
  unfold loadL1Profile
  rw [readLines_eq hlines, Option.bind_eq_bind, Option.bind_some, ipairs_file hprofile.numbered,
    hdefaults, Option.bind_eq_bind, Option.bind_some]
  cases indexDevices 0 ((List.range n).map fun j => withDefaults (j + 1) (settings file j))
    Ridx.empty with
  | none => rfl
  | some ridx => rfl

theorem mem_refs {devs : ℕ → Settings} {r : Ref} :
    r ∈ refs devs n ↔ r.device < n ∧ r.band ∈ bandsOf (devs r.device) := by
  unfold refs bandRefs
  simp only [List.mem_flatMap, List.mem_range, List.mem_map]
  constructor
  · rintro ⟨j, hj, band, hband, rfl⟩
    exact ⟨hj, hband⟩
  · rintro ⟨hr, hband⟩
    exact ⟨r.device, hr, r.band, hband, rfl⟩

theorem record_eq (hprofile : IsProfile file n)
    (hgiven : ∀ k < n, (mainNames (settings file k)).length = 2 → GivesPrefixes (settings file k))
    {r : Ref} (hr : r ∈ refs (settings file) n) (ridx : Ridx) :
    (L1Table.mk ((List.range n).map fun j => withDefaults (j + 1) (settings file j)) ridx).record r =
      some (recordOf r.device (settings file r.device) r.band) := by
  obtain ⟨hdevice, hband⟩ := mem_refs.mp hr
  have hdev := hprofile.device hdevice
  unfold L1Table.record
  dsimp only
  rw [List.getElem?_map, List.getElem?_range hdevice, Option.map_some, Option.map_some]
  unfold bandsOf at hband
  split at hband
  case isTrue htwo =>
      rcases List.mem_pair.mp hband with hband | hband <;> rw [hband] <;> dsimp only
      · rw [bandRecord_eq_recordOf hdev htwo (hgiven _ hdevice htwo) (by decide)]
      · rw [bandRecord_eq_recordOf hdev htwo (hgiven _ hdevice htwo) (by decide)]
  case isFalse hlength =>
      have hone := (mainNames_length hdev).resolve_right hlength
      rw [List.mem_singleton.mp hband]
      dsimp only
      rw [withDefaults_eq_recordOf hdev hone]

theorem loaded_of_gives (hlines : List.Forall₂ Renders lines file) (hprofile : IsProfile file n)
    (hdistinct : Distinct (settings file) (refs (settings file) n))
    (hgiven : ∀ k < n, (mainNames (settings file k)).length = 2 →
      GivesPrefixes (settings file k)) : Loaded lines file n := by
  obtain ⟨ridx, hrun, hindexed⟩ := indexDevices_indexed n 0
    (fun j _ hj => hprofile.device (by omega)) (fun j _ hj => hgiven j (by omega))
    (by rwa [← List.range_eq_range']) Ridx.empty
  rw [← List.range_eq_range'] at hrun hindexed
  refine ⟨_, by rw [loadL1Profile_eq hlines hprofile, hrun]; rfl, ?_⟩
  intro r hr
  exact ⟨hindexed.own r hr, hindexed.ownDevice r hr, record_eq hprofile hgiven hr ridx⟩

/-! ### What a loaded file must give -/

theorem refs_nodup (devs : ℕ → Settings) (n : ℕ) : (refs devs n).Nodup := by
  refine List.nodup_flatMap.mpr ⟨fun k _ => ?_, ?_⟩
  · have hbands : (bandsOf (devs k)).Nodup := by
      unfold bandsOf
      split <;> decide
    apply hbands.map
    intro band band' hsame
    exact (Ref.mk.inj hsame).2
  · apply List.Nodup.pairwise_of_forall_ne List.nodup_range
    intro j _ k _ hne r hj hk
    obtain ⟨band, -, rfl⟩ := List.mem_map.mp hj
    obtain ⟨band', -, hsame⟩ := List.mem_map.mp hk
    exact hne (Ref.mk.inj hsame).1.symm

theorem indexDevices_keeps {P : Ridx → Prop} {devs : List Settings} {t t' : Ridx}
    (hstep : ∀ j dev, devs[j]? = some dev → ∀ t t', P t → indexDevice (k + j) dev t = some t' → P t')
    (ht : P t) (h : indexDevices k devs t = some t') : P t' := by
  induction devs generalizing k t with
  | nil =>
      obtain rfl := Option.some.inj h
      exact ht
  | cons dev devs ih =>
      rw [indexDevices, Option.bind_eq_some_iff] at h
      obtain ⟨t1, hround, hrest⟩ := h
      refine ih (fun j dev' hdev' t t' => ?_) (hstep 0 dev rfl t t1 ht hround) hrest
      rw [Nat.add_assoc, Nat.add_comm 1 j]
      exact hstep (j + 1) dev' hdev' t t'

theorem indexDevices_round {devs : List Settings} {t t' : Ridx}
    (h : indexDevices k devs t = some t') {j : ℕ} {dev : Settings} (hdev : devs[j]? = some dev) :
    ∃ t1 t2, indexDevice (k + j) dev t1 = some t2 := by
  induction devs generalizing k t j with
  | nil => cases hdev
  | cons first devs ih =>
      rw [indexDevices, Option.bind_eq_some_iff] at h
      obtain ⟨t1, hround, hrest⟩ := h
      cases j with
      | zero =>
          obtain rfl := Option.some.inj hdev
          exact ⟨t, t1, hround⟩
      | succ j =>
          obtain ⟨t2, t3, hround'⟩ := ih hrest hdev
          refine ⟨t2, t3, ?_⟩
          rwa [Nat.add_assoc, Nat.add_comm 1 j] at hround'

theorem indexBand_ifname {dev : Settings} {name : Text} {i : ℕ} {t t' : Ridx}
    (h : indexBand k dev name i t = some t') :
    t'.ifname = Function.update t.ifname name (some ⟨k, some i⟩) := by
  unfold indexBand at h
  split at h
  · obtain rfl := Option.some.inj h
    rfl
  · cases h

theorem copyNames_of_round {dev : Settings} {main1 main2 : Text} {t t' : Ridx}
    (hmain : dev mainIfname = some ([';'].intercalate [main1, main2]))
    (htokens : tokens ';' ([';'].intercalate [main1, main2]) = [main1, main2])
    (h : indexDevice k dev t = some t') :
    copyNames (opts.flatMap (optCopies dev (dbdcIf main1 main2)))
      (withMains k main1 main2 t.ifname) = some t'.ifname := by
  rw [indexDevice_eq_two hmain htokens, Option.bind_eq_some_iff] at h
  obtain ⟨t1, hband1, h⟩ := h
  obtain ⟨t2, hband2, h⟩ := Option.bind_eq_some_iff.mp h
  obtain ⟨ifname, hcopies, hsome⟩ := Option.bind_eq_some_iff.mp h
  obtain rfl := Option.some.inj hsome
  rw [indexBand_ifname hband2, indexBand_ifname hband1] at hcopies
  exact hcopies

theorem indexDevice_missing {dev : Settings} (hdev : IsDevice dev)
    (htwo : (mainNames dev).length = 2) {opt : Opt} (hext : opt ≠ .ext) (hmesh : opt ≠ .mesh)
    (hnone : dev opt.key = none) (t : Ridx) : indexDevice k (withDefaults (k + 1) dev) t = none := by
  obtain ⟨main1, main2, hmain, htokens, -⟩ := exists_mainNames hdev htwo
  have htoken : tokenGet (withDefaults (k + 1) dev opt.key) 2 none = none := by
    rw [withDefaults_opt, hnone, Option.none_or, defaultPrefix_of_ne hext, tokenGet,
      tokens_of_isToken (isToken_default hext (k + 1))]
    rfl
  have hcopy : (none, dbdcIf main1 main2 2) ∈
      opts.flatMap (optCopies (withDefaults (k + 1) dev) (dbdcIf main1 main2)) := by
    have hnumber : 0 ∈ opt.numbers := by
      revert hext
      cases opt <;> decide
    refine List.mem_flatMap.mpr ⟨opt, mem_opts opt, ?_⟩
    unfold optCopies
    refine List.mem_flatMap.mpr ⟨0, hnumber, List.mem_flatMap.mpr ⟨2, by decide, ?_⟩⟩
    rw [htoken]
    dsimp only
    rw [if_neg hmesh]
    exact List.mem_singleton.mpr rfl
  by_contra hround
  obtain ⟨t', ht'⟩ := Option.ne_none_iff_exists'.mp hround
  rw [← withDefaults_main (k + 1) dev] at hmain
  have hcopies := copyNames_of_round hmain htokens ht'
  rw [copyNames_missing ⟨_, hcopy, rfl⟩] at hcopies
  cases hcopies

theorem optCopies_main {dev : Settings} {dbdc : ℕ → Text} {opt : Opt} {copy : Option Text × Text}
    (h : copy ∈ optCopies dev dbdc opt) : ∃ j ∈ bands, copy.2 = dbdc j := by
  unfold optCopies at h
  obtain ⟨i, -, h⟩ := List.mem_flatMap.mp h
  obtain ⟨j, hj, h⟩ := List.mem_flatMap.mp h
  refine ⟨j, hj, ?_⟩
  split at h
  · split at h
    · cases h
    · rw [List.mem_singleton.mp h]
  · rw [List.mem_singleton.mp h]

theorem indexDevice_device {dev : Settings} (hdev : IsDevice dev) {t t' : Ridx}
    (h : indexDevice k (withDefaults (k + 1) dev) t = some t') (name : Text) :
    t'.ifname name = t.ifname name ∨ ∃ band, t'.ifname name = some ⟨k, band⟩ := by
  rcases mainNames_length hdev with hone | htwo
  · rw [indexDevice_one hdev hone] at h
    obtain rfl := Option.some.inj h
    by_cases hname : name ∈ interfaceNames k dev none
    · right
      refine ⟨none, writeAll_agree ⟨_, List.mem_map.mpr ⟨name, hname, rfl⟩, rfl⟩ ?_⟩
      intro w hw _
      obtain ⟨name', -, rfl⟩ := List.mem_map.mp hw
      rfl
    · left
      apply writeAll_other
      intro w hw hsame
      obtain ⟨name', hname', rfl⟩ := List.mem_map.mp hw
      exact hname (hsame ▸ hname')
  · obtain ⟨main1, main2, hmain, htokens, -⟩ := exists_mainNames hdev htwo
    rw [← withDefaults_main (k + 1) dev] at hmain
    have hcopies := copyNames_of_round hmain htokens h
    have hmain2 : withMains k main1 main2 t.ifname main2 = some ⟨k, some 2⟩ :=
      Function.update_self _ _ _
    have hmain1 : ∃ band, withMains k main1 main2 t.ifname main1 = some ⟨k, band⟩ := by
      by_cases hsame : main1 = main2
      · exact ⟨some 2, hsame ▸ hmain2⟩
      · exact ⟨some 1, (Function.update_of_ne hsame _ _).trans (Function.update_self _ _ _)⟩
    have hsources : ∀ copy ∈ opts.flatMap
        (optCopies (withDefaults (k + 1) dev) (dbdcIf main1 main2)),
        ∃ band, withMains k main1 main2 t.ifname copy.2 = some ⟨k, band⟩ := by
      intro copy hcopy
      obtain ⟨opt, -, hcopy⟩ := List.mem_flatMap.mp hcopy
      obtain ⟨j, -, hj⟩ := optCopies_main hcopy
      rw [hj]
      unfold dbdcIf
      split
      · exact hmain1
      · exact ⟨some 2, hmain2⟩
    rcases copyNames_device hcopies hsources name with hsame | hown
    · rw [hsame]
      by_cases hname2 : name = main2
      · exact Or.inr ⟨some 2, hname2 ▸ hmain2⟩
      · by_cases hname1 : name = main1
        · exact Or.inr (hname1 ▸ hmain1)
        · left
          exact (Function.update_of_ne hname2 _ _).trans (Function.update_of_ne hname1 _ _)
    · exact Or.inr hown

theorem optCopies_name {dev : Settings} {dbdc : ℕ → Text} {opt : Opt} {copy : Option Text × Text}
    {name : Text} (h : copy ∈ optCopies dev dbdc opt) (hname : copy.1 = some name) :
    ∃ j ∈ bands, ∃ p, tokenGet (dev opt.key) j none = some p ∧
      ∃ i ∈ opt.numbers, name = p ++ decimal i := by
  unfold optCopies at h
  obtain ⟨i, hi, h⟩ := List.mem_flatMap.mp h
  obtain ⟨j, hj, h⟩ := List.mem_flatMap.mp h
  cases htoken : tokenGet (dev opt.key) j none with
  | none =>
      rw [htoken] at h
      dsimp only at h
      split at h
      · cases h
      · rw [List.mem_singleton.mp h] at hname
        cases hname
  | some p =>
      rw [htoken] at h
      rw [List.mem_singleton.mp h] at hname
      exact ⟨j, hj, p, htoken, i, hi, (Option.some.inj hname).symm⟩

theorem optNames_disjoint {dev : Settings} {band : Option ℕ}
    (hnodup : (interfaceNames k dev band).Nodup) {opt opt' : Opt} (hne : opt ≠ opt') {name : Text}
    (hname : name ∈ optNames k dev band opt) : name ∉ optNames k dev band opt' := by
  have hopts := hnodup.of_append_right
  rw [List.nodup_flatMap] at hopts
  have hsymm : Std.Symm (Function.onFun List.Disjoint (optNames k dev band)) :=
    ⟨fun _ _ hdisjoint => List.Disjoint.symm hdisjoint⟩
  exact hopts.2.forall (mem_opts opt) (mem_opts opt') hne hname

theorem tokens_defaultExt {main1 main2 : Text}
    (htokens : tokens ';' ([';'].intercalate [main1, main2]) = [main1, main2]) :
    tokens ';' ([';'].intercalate [main1, main2] ++ ['_']) = [main1, main2 ++ ['_']] := by
  have hmain1 : IsToken ';' main1 := isToken_of_mem_tokens (by rw [htokens]; simp)
  have hmain2 : IsToken ';' main2 := isToken_of_mem_tokens (by rw [htokens]; simp)
  have hjoined : [';'].intercalate [main1, main2] ++ ['_'] =
      [';'].intercalate [main1, main2 ++ ['_']] := by
    simp [List.intercalate]
  have hparts : ∀ part ∈ [main1, main2 ++ ['_']], ';' ∉ part := by
    intro part hpart
    rcases List.mem_pair.mp hpart with rfl | rfl
    · exact hmain1.2
    · simpa using hmain2.2
  rw [hjoined, tokens_intercalate hparts]
  simp [hmain1.1]

theorem indexDevice_noExt {dev : Settings} (hdev : IsDevice dev)
    (htwo : (mainNames dev).length = 2)
    (hgiven : ∀ opt : Opt, opt ≠ .ext → opt ≠ .mesh → dev opt.key ≠ none)
    (hext : dev Opt.ext.key = none)
    (hnodup : ([some 1, some 2].flatMap (interfaceNames k dev)).Nodup) {name : Text}
    (hname : name ∈ optNames k dev (some 1) .ext) {main1 : Text}
    (hmain1 : mainName dev (some 1) = some main1) (hfirst : name = main1 ++ ['_'] ++ decimal 1)
    {t t' : Ridx} (h : indexDevice k (withDefaults (k + 1) dev) t = some t') :
    t'.ifname name = t.ifname name := by
  obtain ⟨main1', main2, hmain, htokens, hmain1', hmain2⟩ := exists_mainNames hdev htwo
  obtain rfl : main1' = main1 := Option.some.inj (hmain1'.symm.trans hmain1)
  obtain ⟨-, hother⟩ := main_ne_of_nodup hmain1 hmain2 hnodup
  obtain ⟨hne1, hne2⟩ := hother 1 (by decide) .ext name hname
  have hown : name ∈ interfaceNames k dev (some 1) := mem_interfaceNames.mpr (Or.inr ⟨_, hname⟩)
  have hband : ∀ j ∈ bands, ∀ opt, name ∈ optNames k dev (some j) opt → j = 1 ∧ opt = .ext := by
    intro j hj opt hmem
    obtain rfl : j = 1 := band_eq_of_nodup hnodup hj (by decide)
      (mem_interfaceNames.mpr (Or.inr ⟨opt, hmem⟩)) hown
    refine ⟨rfl, ?_⟩
    by_contra hopt
    rw [List.flatMap_cons] at hnodup
    exact optNames_disjoint hnodup.of_append_left (Ne.symm hopt) hname hmem
  have hnot : ∀ copy ∈ opts.flatMap
      (optCopies (withDefaults (k + 1) dev) (dbdcIf main1' main2)), copy.1 ≠ some name := by
    intro copy hcopy hdst
    obtain ⟨opt, -, hcopy⟩ := List.mem_flatMap.mp hcopy
    obtain ⟨j, hj, p, hp, i, hi, hsplit⟩ := optCopies_name hcopy hdst
    by_cases hopt : opt = .ext
    · subst hopt
      rw [withDefaults_opt, hext, Option.none_or, defaultPrefix, hmain, Option.map_some, tokenGet,
        tokens_defaultExt htokens] at hp
      have hj' : j = 1 ∨ j = 2 := by simpa [bands] using hj
      rcases hj' with rfl | rfl
      · obtain rfl : main1' = p := Option.some.inj hp
        rw [hfirst, List.append_assoc] at hsplit
        have hdigits := List.append_cancel_left hsplit
        have hnever : ∀ i ∈ Opt.ext.numbers, ['_'] ++ decimal 1 ≠ decimal i := by decide
        exact hnever i hi hdigits
      · obtain rfl : main2 ++ ['_'] = p := Option.some.inj hp
        have hprefix : bandPrefix k dev (some 2) .ext = some (main2 ++ ['_']) := by
          unfold bandPrefix
          rw [hext]
          dsimp only
          rw [hmain2]
          rfl
        have hmem := hband 2 (by decide) .ext (mem_optNames.mpr ⟨_, hprefix, i, hi, hsplit⟩)
        exact absurd hmem.1 (by decide)
    · obtain ⟨htoken, -⟩ := tokenGet_two (k := k) hdev htwo (hgiven opt hopt) hj
      rw [htoken] at hp
      exact hopt (hband j hj opt (mem_optNames.mpr ⟨p, hp, i, hi, hsplit⟩)).2
  rw [← withDefaults_main (k + 1) dev] at hmain
  rw [copyNames_other (copyNames_of_round hmain htokens h) hnot]
  exact (Function.update_of_ne hne2 _ _).trans (Function.update_of_ne hne1 _ _)

theorem getElem?_devices (hk : k < n) :
    ((List.range n).map fun j => withDefaults (j + 1) (settings file j))[k]? =
      some (withDefaults (k + 1) (settings file k)) := by
  rw [List.getElem?_map, List.getElem?_range hk, Option.map_some]

theorem devices_getElem? {dev : Settings}
    (h : ((List.range n).map fun j => withDefaults (j + 1) (settings file j))[k]? = some dev) :
    k < n ∧ dev = withDefaults (k + 1) (settings file k) := by
  have hk : k < n := by
    have hlength := (List.getElem?_eq_some_iff.mp h).1
    rwa [List.length_map, List.length_range] at hlength
  rw [getElem?_devices hk] at h
  exact ⟨hk, (Option.some.inj h).symm⟩

theorem device_nodup {devs : ℕ → Settings} (hnames : ((refs devs n).flatMap (refNames devs)).Nodup)
    (hk : k < n) (htwo : (mainNames (devs k)).length = 2) :
    ([some 1, some 2].flatMap (interfaceNames k (devs k))).Nodup := by
  have hrefs : bandRefs devs k = [⟨k, some 1⟩, ⟨k, some 2⟩] := by
    rw [bandRefs, bandsOf, if_pos htwo]
    rfl
  rw [refs, List.flatMap_assoc, List.nodup_flatMap] at hnames
  have hdevice := hnames.1 k (List.mem_range.mpr hk)
  rw [hrefs] at hdevice
  exact hdevice

theorem gives_of_loaded (hlines : List.Forall₂ Renders lines file) (hprofile : IsProfile file n)
    (hnames : ((refs (settings file) n).flatMap (refNames (settings file))).Nodup)
    (h : Loaded lines file n) (hk : k < n) (htwo : (mainNames (settings file k)).length = 2) :
    GivesPrefixes (settings file k) := by
  obtain ⟨table, hload, hindexed⟩ := h
  rw [loadL1Profile_eq hlines hprofile, Option.map_eq_some_iff] at hload
  obtain ⟨ridx, hrun, rfl⟩ := hload
  have hdev := hprofile.device hk
  have hgiven : ∀ opt : Opt, opt ≠ .ext → opt ≠ .mesh → settings file k opt.key ≠ none := by
    intro opt hext hmesh hnone
    obtain ⟨t1, t2, hround⟩ := indexDevices_round hrun (getElem?_devices hk)
    rw [Nat.zero_add, indexDevice_missing hdev htwo hext hmesh hnone] at hround
    cases hround
  intro opt hmesh hnone
  by_cases hext : opt = .ext
  · subst hext
    obtain ⟨main1, main2, -, -, hmain1, -⟩ := exists_mainNames hdev htwo
    have hprefix : bandPrefix k (settings file k) (some 1) .ext = some (main1 ++ ['_']) := by
      unfold bandPrefix
      rw [hnone]
      dsimp only
      rw [hmain1]
      rfl
    have hname : main1 ++ ['_'] ++ decimal 1 ∈ optNames k (settings file k) (some 1) .ext :=
      mem_optNames.mpr ⟨_, hprefix, 1, by decide, rfl⟩
    have href : (⟨k, some 1⟩ : Ref) ∈ refs (settings file) n := by
      refine mem_refs.mpr ⟨hk, ?_⟩
      rw [bandsOf, if_pos htwo]
      exact List.mem_cons_self
    have hentered : ridx.ifname (main1 ++ ['_'] ++ decimal 1) = some ⟨k, some 1⟩ :=
      (hindexed _ href).1 _ (mem_interfaceNames.mpr (Or.inr ⟨_, hname⟩))
    -- No round enters the name for this band.
    have hnever : ridx.ifname (main1 ++ ['_'] ++ decimal 1) ≠ some ⟨k, some 1⟩ := by
      refine indexDevices_keeps (P := fun t =>
        t.ifname (main1 ++ ['_'] ++ decimal 1) ≠ some ⟨k, some 1⟩) ?_ (by simp [Ridx.empty]) hrun
      intro j dev hj t t' ht hround
      obtain ⟨hlt, rfl⟩ := devices_getElem? hj
      rw [Nat.zero_add] at hround
      by_cases hjk : j = k
      · subst hjk
        rwa [indexDevice_noExt hdev htwo hgiven hnone (device_nodup hnames hk htwo) hname hmain1 rfl
          hround]
      · rcases indexDevice_device (hprofile.device hlt) hround (main1 ++ ['_'] ++ decimal 1)
          with hsame | ⟨band, hother⟩
        · rwa [hsame]
        · rw [hother]
          intro hsame
          exact hjk (Ref.mk.inj (Option.some.inj hsame)).1
    exact hnever hentered
  · exact hgiven opt hext hmesh hnone

/-- A profile is loaded as described exactly when every device with two bands gives
its `ext`, `apcli` and `wds` prefixes and the device names differ. -/
theorem l1_profile_loaded_iff (hlines : List.Forall₂ Renders lines file)
    (hprofile : IsProfile file n)
    (hnames : ((refs (settings file) n).flatMap (refNames (settings file))).Nodup) :
    Loaded lines file n ↔
      (∀ k < n, (mainNames (settings file k)).length = 2 → GivesPrefixes (settings file k)) ∧
        ((refs (settings file) n).map (refDevice (settings file))).Nodup := by
  constructor
  · intro hloaded
    constructor
    · intro k hk htwo
      exact gives_of_loaded hlines hprofile hnames hloaded hk htwo
    · obtain ⟨table, -, hindexed⟩ := hloaded
      apply (refs_nodup (settings file) n).map_on
      intro r hr r' hr' hsame
      have hr1 := (hindexed r hr).2.1
      have hr2 := (hindexed r' hr').2.1
      rw [hsame, hr2] at hr1
      exact (Option.some.inj hr1).symm
  · rintro ⟨hgiven, hdevices⟩
    exact loaded_of_gives hlines hprofile ⟨hnames, hdevices⟩ hgiven

end Load

/-! ### Files with one device -/

def fieldLine (name value : Text) : Text := indexKey ++ ('0' :: '_' :: name) ++ '=' :: value

def indexLine (chipset : Text) : Text := indexKey ++ ['0'] ++ '=' :: chipset

theorem trimmed_of_plain {s : Text} (h : ∀ c ∈ s, isSpace c = false) : Trimmed s := by
  constructor
  · intro c hc
    exact h c (List.mem_of_head? hc)
  · intro c hc
    exact h c (List.mem_of_getLast? hc)

theorem not_space_of_all {t : Text} (h : t.all isNonspace = true) : ∀ c ∈ t, isSpace c = false := by
  intro c hc
  have hnot := List.all_eq_true.mp h c hc
  rwa [isNonspace, Bool.not_eq_true'] at hnot

theorem renders_fieldLine {name value : Text} (hne : name ≠ [])
    (hname : name.all isNonspace = true) (hequal : '=' ∉ name)
    (hvalue : value.all isNonspace = true) :
    Renders (fieldLine name value) (.field 0 name value) := by
  have hrenders := Renders.field [] ['0'] name [] [] value [] (by simp [IsSpaces]) (by simp)
    (by simp [isDigit]) hne hequal
    (fun c hc => not_space_of_all hname c (List.mem_of_getLast? hc)) (by simp [IsSpaces]) (by simp [IsSpaces])
    (trimmed_of_plain (not_space_of_all hvalue)) (by simp [IsSpaces])
  simpa [fieldLine, number] using hrenders

theorem renders_indexLine {chipset : Text} (hchipset : chipset.all isNonspace = true) :
    Renders (indexLine chipset) (.index 0 chipset) := by
  have hrenders := Renders.index [] ['0'] [] [] chipset [] (by simp [IsSpaces]) (by simp)
    (by simp [isDigit]) (by simp [IsSpaces]) (by simp [IsSpaces]) (trimmed_of_plain (not_space_of_all hchipset))
    (by simp [IsSpaces])
  simpa [indexLine, number] using hrenders

theorem isProfile_one {file : List Line} {chipset main : Text}
    (hdevice : ∀ line ∈ file, line.device? = some 0) (hindex : Line.index 0 chipset ∈ file)
    (hmain : settings file 0 mainIfname = some main) (hjoined : main = [';'].intercalate (tokens ';' main))
    (hlength : (tokens ';' main).length = 1 ∨ (tokens ';' main).length = 2)
    (hoption : ∀ opt ∈ opts, ∀ v ∈ settings file 0 opt.key,
      v = [';'].intercalate (tokens ';' v) ∧ (tokens ';' v).length = (tokens ';' main).length) :
    IsProfile file 1 := by
  constructor
  · intro k
    constructor
    · intro hk
      obtain rfl : k = 0 := by omega
      exact ⟨_, hindex, rfl⟩
    · rintro ⟨line, hline, hk⟩
      rw [hdevice line hline] at hk
      have hzero := Option.some.inj hk
      omega
  · intro k hk
    obtain rfl : k = 0 := by omega
    exact ⟨chipset, hindex⟩
  · intro k hk
    obtain rfl : k = 0 := by omega
    exact ⟨main, hmain, hjoined, hlength⟩
  · intro k hk opt v hv
    obtain rfl : k = 0 := by omega
    rw [mainNames, hmain]
    exact hoption opt (mem_opts opt) v hv

def radio (given : List (Opt × String)) : List Line :=
  .index 0 "MT7915".toList :: .field 0 mainIfname "ra0;rax0".toList ::
    given.map fun p => .field 0 p.1.key p.2.toList

def radioLines (given : List (Opt × String)) : List Text :=
  indexLine "MT7915".toList :: fieldLine mainIfname "ra0;rax0".toList ::
    given.map fun p => fieldLine p.1.key p.2.toList

def radioPrefixes : List (Opt × String) :=
  [(.ext, "ra;rax"), (.apcli, "apcli;apclix"), (.wds, "wds;wdsx"), (.mesh, "mesh;meshx")]

theorem renders_radio {given : List (Opt × String)}
    (h : ∀ p ∈ given, p.2.toList.all isNonspace = true) :
    List.Forall₂ Renders (radioLines given) (radio given) := by
  refine .cons (renders_indexLine (by decide))
    (.cons (renders_fieldLine (by decide) (by decide) (by decide) (by decide)) ?_)
  rw [List.forall₂_map_left_iff, List.forall₂_map_right_iff, List.forall₂_same]
  intro p hp
  refine renders_fieldLine ?_ ?_ ?_ (h p hp)
  · cases p.1 <;> decide
  · cases p.1 <;> decide
  · cases p.1 <;> decide

theorem isProfile_radio {given : List (Opt × String)}
    (hoption : ∀ opt ∈ opts, ∀ v ∈ settings (radio given) 0 opt.key,
      v = [';'].intercalate (tokens ';' v) ∧ (tokens ';' v).length = 2)
    (hmain : settings (radio given) 0 mainIfname = some "ra0;rax0".toList) :
    IsProfile (radio given) 1 := by
  have htwo : (tokens ';' "ra0;rax0".toList).length = 2 := by decide
  have hindex : Line.index 0 "MT7915".toList ∈ radio given := List.mem_cons_self
  refine isProfile_one ?_ hindex hmain (by decide) (Or.inr htwo) ?_
  · intro line hline
    rcases List.mem_cons.mp hline with rfl | hline
    · rfl
    · rcases List.mem_cons.mp hline with rfl | hline
      · rfl
      · obtain ⟨p, -, rfl⟩ := List.mem_map.mp hline
        rfl
  · rw [htwo]
    exact hoption

theorem l1_profile_loaded_radio : Loaded (radioLines radioPrefixes) (radio radioPrefixes) 1 := by
  refine (l1_profile_loaded_iff (renders_radio (by decide))
    (isProfile_radio (by decide) (by decide)) (by decide +kernel)).mpr ⟨?_, by decide⟩
  intro k hk htwo opt hmesh
  obtain rfl : k = 0 := by omega
  revert hmesh
  cases opt <;> decide

/-- A radio with two bands that leaves `apcli_ifname` out cannot be loaded, and one
that leaves `ext_ifname` out has no entry for `ra0_1`. -/
theorem l1_profile_default_lost :
    (List.Forall₂ Renders (radioLines (radioPrefixes.filter (·.1 ≠ .apcli)))
          (radio (radioPrefixes.filter (·.1 ≠ .apcli))) ∧
        IsProfile (radio (radioPrefixes.filter (·.1 ≠ .apcli))) 1 ∧
        ((refs (settings (radio (radioPrefixes.filter (·.1 ≠ .apcli)))) 1).flatMap
          (refNames (settings (radio (radioPrefixes.filter (·.1 ≠ .apcli)))))).Nodup ∧
        (loadL1Profile (radioLines (radioPrefixes.filter (·.1 ≠ .apcli)))).isNone) ∧
      List.Forall₂ Renders (radioLines (radioPrefixes.filter (·.1 ≠ .ext)))
          (radio (radioPrefixes.filter (·.1 ≠ .ext))) ∧
        IsProfile (radio (radioPrefixes.filter (·.1 ≠ .ext))) 1 ∧
        ((refs (settings (radio (radioPrefixes.filter (·.1 ≠ .ext)))) 1).flatMap
          (refNames (settings (radio (radioPrefixes.filter (·.1 ≠ .ext)))))).Nodup ∧
        "ra0_1".toList ∈
          refNames (settings (radio (radioPrefixes.filter (·.1 ≠ .ext)))) ⟨0, some 1⟩ ∧
        (loadL1Profile (radioLines (radioPrefixes.filter (·.1 ≠ .ext)))).map
          (fun table => table.ridx.ifname "ra0_1".toList) = some none :=
  ⟨⟨renders_radio (by decide), isProfile_radio (by decide) (by decide), by decide +kernel,
      by decide +kernel⟩,
    renders_radio (by decide), isProfile_radio (by decide) (by decide), by decide +kernel,
      by decide, by decide +kernel⟩

end Nwa50ax.Wifi.L1
