import Nwa50ax.Wifi.L1Profile

/-!
# The names of a device of the L1 profile

What the two reverse indices should hold is said for every band of a device: its
interface names, its device name and its record.  The round of the loop for a
device enters the names when a device with two bands gives its prefixes.
-/

namespace Nwa50ax.Wifi.L1

open LuaPattern Tokens Writes

/-! ## What the indices should hold -/

def mainNames (dev : Settings) : List Text := tokens ';' ((dev mainIfname).getD [])

/-- The bands of a device; `none` stands for the device itself. -/
def bandsOf (dev : Settings) : List (Option ℕ) :=
  if (mainNames dev).length = 2 then [some 1, some 2] else [none]

def part (v : Text) (band : Option ℕ) : Option Text := (tokens ';' v)[band.getD 1 - 1]?

def mainName (dev : Settings) (band : Option ℕ) : Option Text :=
  (dev mainIfname).bind fun v => part v band

/-- The prefix of a band's names.  The default of `ext` is the band's main name with
an underscore; the other defaults name the device, so a second band has none. -/
def bandPrefix (k : ℕ) (dev : Settings) (band : Option ℕ) (opt : Opt) : Option Text :=
  match dev opt.key with
  | some v => part v band
  | none =>
      match opt with
      | .ext => (mainName dev band).map (· ++ ['_'])
      | opt =>
          if band = some 2 then none else some (opt.default ++ (decimal (k + 1) ++ ['_']))

def optNames (k : ℕ) (dev : Settings) (band : Option ℕ) (opt : Opt) : List Text :=
  (bandPrefix k dev band opt).toList.flatMap fun p => opt.numbers.map fun i => p ++ decimal i

def interfaceNames (k : ℕ) (dev : Settings) (band : Option ℕ) : List Text :=
  (mainName dev band).toList ++ opts.flatMap (optNames k dev band)

def recordOf (k : ℕ) (dev : Settings) (band : Option ℕ) : Settings := fun key =>
  match opts.find? (·.key = key) with
  | some opt =>
      match band with
      | none => bandPrefix k dev none opt
      | some i => some ((bandPrefix k dev (some i) opt).getD [])
  | none =>
      match band with
      | none => dev key
      | some i =>
          match dev key with
          | none => if key = subidx then some (decimal i) else none
          | some v => if key ∈ sharedKeys then some v else some ((part v (some i)).getD [])

/-- `INDEX.mainidx`, with `.subidx` for a band. -/
def deviceName (k : ℕ) (dev : Settings) (band : Option ℕ) : Text :=
  (dev indexKey).getD [] ++ '.' :: ((dev mainidx).getD [] ++
    match band with
    | none => []
    | some i => '.' :: (recordOf k dev (some i) subidx).getD [])

section Spec

variable (devs : ℕ → Settings)

def bandRefs (k : ℕ) : List Ref := (bandsOf (devs k)).map fun band => ⟨k, band⟩

/-- The records that the names of the first `n` devices belong to. -/
def refs (n : ℕ) : List Ref := (List.range n).flatMap (bandRefs devs)

def refNames (r : Ref) : List Text := interfaceNames r.device (devs r.device) r.band

def refDevice (r : Ref) : Text := deviceName r.device (devs r.device) r.band

end Spec

/-- A file with `n` devices as the documentation describes it. -/
structure IsProfile (file : List Line) (n : ℕ) : Prop where
  numbered : ∀ k, k < n ↔ ∃ line ∈ file, line.device? = some k
  index : ∀ k < n, ∃ chipset, Line.index k chipset ∈ file
  main : ∀ k < n, ∃ v, settings file k mainIfname = some v ∧ v = [';'].intercalate (tokens ';' v) ∧
    ((tokens ';' v).length = 1 ∨ (tokens ';' v).length = 2)
  option : ∀ k < n, ∀ opt v, settings file k (Opt.key opt) = some v →
    v = [';'].intercalate (tokens ';' v) ∧
      (tokens ';' v).length = (mainNames (settings file k)).length

/-- The file is loaded, and both indices lead from every name of a band to its
record. -/
def Loaded (lines : List Text) (file : List Line) (n : ℕ) : Prop :=
  ∃ table, loadL1Profile lines = some table ∧ ∀ r ∈ refs (settings file) n,
    (∀ name ∈ refNames (settings file) r, table.ridx.ifname name = some r) ∧
      table.ridx.devname (refDevice (settings file) r) = some r ∧
      table.record r = some (recordOf r.device (settings file r.device) r.band)

structure IsDevice (dev : Settings) : Prop where
  index : dev indexKey ≠ none
  mainidx : dev mainidx ≠ none
  main : ∃ v, dev mainIfname = some v ∧ v = [';'].intercalate (tokens ';' v) ∧
    ((tokens ';' v).length = 1 ∨ (tokens ';' v).length = 2)
  option : ∀ opt v, dev (Opt.key opt) = some v → v = [';'].intercalate (tokens ';' v) ∧
    (tokens ';' v).length = (mainNames dev).length

theorem latest_index {lines : List Line} {k : ℕ} {chipset : Text}
    (h : Line.index k chipset ∈ lines) :
    latest lines k indexKey ≠ none ∧ latest lines k mainidx ≠ none := by
  induction lines with
  | nil => cases h
  | cons line lines ih =>
      cases line with
      | skip => exact ih ((List.mem_cons.mp h).resolve_left (by simp))
      | field device name value =>
          have hrest := ih ((List.mem_cons.mp h).resolve_left (by simp))
          simp only [latest]
          constructor
          · split
            · simp
            · exact hrest.1
          · split
            · simp
            · exact hrest.2
      | index device chipset' =>
          simp only [latest]
          by_cases hdevice : device = k
          · have hkeys : mainidx ≠ indexKey := by decide
            simp [hdevice, hkeys]
          · have hrest := ih ((List.mem_cons.mp h).resolve_left (by
              intro hsame
              exact hdevice (Line.index.inj hsame).1.symm))
            simp only [hdevice, false_and, if_false]
            exact hrest

theorem IsProfile.device {file : List Line} {n k : ℕ} (h : IsProfile file n) (hk : k < n) :
    IsDevice (settings file k) := by
  obtain ⟨chipset, hindex⟩ := h.index k hk
  have hgiven := latest_index (List.mem_reverse.mpr hindex)
  constructor
  · exact hgiven.1
  · exact hgiven.2
  · exact h.main k hk
  · exact h.option k hk

/-! ## Settings of a device -/

theorem tokens_eq_singleton {v : Text} (hv : v = [';'].intercalate (tokens ';' v))
    (hlength : (tokens ';' v).length = 1) : tokens ';' v = [v] := by
  obtain ⟨token, htoken⟩ := List.length_eq_one_iff.mp hlength
  rw [htoken] at hv ⊢
  rw [hv]
  simp [List.intercalate]

theorem separator_notMem_decimal (n : ℕ) : ';' ∉ decimal n := by
  intro hmem
  unfold decimal at hmem
  rw [Nat.toString_eq_repr, Nat.toList_repr] at hmem
  exact absurd (Nat.isDigit_of_mem_toDigits (by decide) (by decide) hmem) (by decide)

theorem isToken_default {opt : Opt} (hopt : opt ≠ .ext) (k : ℕ) :
    IsToken ';' (opt.default ++ (decimal k ++ ['_'])) := by
  constructor
  · simp
  · intro hmem
    rcases List.mem_append.mp hmem with hmem | hmem
    · revert hmem
      cases opt <;> decide
    · rcases List.mem_append.mp hmem with hmem | hmem
      · exact separator_notMem_decimal k hmem
      · exact absurd hmem (by decide)

theorem defaultPrefix_of_ne {opt : Opt} (hopt : opt ≠ .ext) (k : ℕ) (dev : Settings) :
    defaultPrefix k dev opt = some (opt.default ++ (decimal k ++ ['_'])) := by
  cases opt with
  | ext => exact absurd rfl hopt
  | apcli => rfl
  | wds => rfl
  | mesh => rfl

theorem bandPrefix_of_ne {opt : Opt} (hopt : opt ≠ .ext) {k : ℕ} {dev : Settings}
    (hnone : dev opt.key = none) (band : Option ℕ) :
    bandPrefix k dev band opt =
      if band = some 2 then none else some (opt.default ++ (decimal (k + 1) ++ ['_'])) := by
  unfold bandPrefix
  rw [hnone]
  cases opt with
  | ext => exact absurd rfl hopt
  | apcli => rfl
  | wds => rfl
  | mesh => rfl

theorem bandPrefix_given {opt : Opt} {k : ℕ} {dev : Settings} {v : Text}
    (hv : dev opt.key = some v) (band : Option ℕ) : bandPrefix k dev band opt = part v band := by
  unfold bandPrefix
  rw [hv]

theorem mem_opts (opt : Opt) : opt ∈ opts := by
  cases opt <;> decide

theorem opt_find (opt : Opt) : opts.find? (·.key = opt.key) = some opt := by
  cases opt <;> decide

theorem opt_of_find {key : Text} {opt : Opt} (h : opts.find? (·.key = key) = some opt) :
    key = opt.key := by
  have hkey := List.find?_some h
  rw [decide_eq_true_eq] at hkey
  exact hkey.symm

theorem not_opt_of_find {key : Text} (h : opts.find? (·.key = key) = none) (opt : Opt) :
    opt.key ≠ key := by
  rintro rfl
  rw [opt_find] at h
  cases h

section Device

variable {k : ℕ} {dev : Settings}

/-! ### One band -/

theorem withDefaults_one (hdev : IsDevice dev) (hone : (mainNames dev).length = 1) (opt : Opt) :
    ∃ p, withDefaults (k + 1) dev opt.key = some p ∧ bandPrefix k dev none opt = some p := by
  rw [withDefaults_opt]
  cases hopt : dev opt.key with
  | some v =>
      obtain ⟨hv, hlength⟩ := hdev.option opt v hopt
      have htokens := tokens_eq_singleton hv (hlength.trans hone)
      refine ⟨v, rfl, ?_⟩
      rw [bandPrefix_given hopt, part, htokens]
      rfl
  | none =>
      rw [Option.none_or]
      by_cases hext : opt = .ext
      · subst hext
        obtain ⟨v, hmain, hv, -⟩ := hdev.main
        rw [mainNames, hmain] at hone
        have htokens := tokens_eq_singleton hv hone
        refine ⟨v ++ ['_'], by rw [defaultPrefix, hmain]; rfl, ?_⟩
        unfold bandPrefix
        rw [hopt]
        dsimp only
        rw [mainName, hmain, Option.bind_some, part, htokens]
        rfl
      · refine ⟨_, defaultPrefix_of_ne hext (k + 1) dev, ?_⟩
        rw [bandPrefix_of_ne hext hopt, if_neg (by simp)]

theorem withDefaults_eq_recordOf (hdev : IsDevice dev) (hone : (mainNames dev).length = 1) :
    withDefaults (k + 1) dev = recordOf k dev none := by
  funext key
  unfold recordOf
  cases hfind : opts.find? (·.key = key) with
  | some opt =>
      obtain ⟨p, hp, hfront⟩ := withDefaults_one (k := k) hdev hone opt
      dsimp only
      rw [opt_of_find hfind, hp, hfront]
  | none => exact withDefaults_other (k + 1) dev (not_opt_of_find hfind)

/-! ### Two bands -/

/-- The settings that a device with two bands must not leave to the defaults. -/
def GivesPrefixes (dev : Settings) : Prop := ∀ opt : Opt, opt ≠ .mesh → dev opt.key ≠ none

theorem tokenGet_two (hdev : IsDevice dev) (htwo : (mainNames dev).length = 2) {opt : Opt}
    (hgiven : opt ≠ .mesh → dev opt.key ≠ none) {j : ℕ} (hj : j ∈ bands) :
    tokenGet (withDefaults (k + 1) dev opt.key) j none = bandPrefix k dev (some j) opt ∧
      (opt ≠ .mesh → bandPrefix k dev (some j) opt ≠ none) := by
  have hj' : j = 1 ∨ j = 2 := by simpa [bands] using hj
  rw [withDefaults_opt]
  cases hopt : dev opt.key with
  | some v =>
      obtain ⟨-, hlength⟩ := hdev.option opt v hopt
      rw [bandPrefix_given hopt, Option.some_or, tokenGet, Option.or_none]
      refine ⟨rfl, fun _ => ?_⟩
      unfold part
      rw [Option.getD_some]
      simp only [ne_eq, List.getElem?_eq_none_iff, not_le]
      omega
  | none =>
      have hmesh : opt = .mesh := by
        by_contra hne
        exact hgiven hne hopt
      subst hmesh
      refine ⟨?_, fun hne => absurd rfl hne⟩
      rw [bandPrefix_of_ne (by decide) hopt, Option.none_or, defaultPrefix_of_ne (by decide),
        tokenGet, tokens_of_isToken (isToken_default (by decide) (k + 1))]
      rcases hj' with rfl | rfl
      · rfl
      · rfl

theorem bandRecord_eq_recordOf (hdev : IsDevice dev) (htwo : (mainNames dev).length = 2)
    (hgiven : GivesPrefixes dev) {i : ℕ} (hi : i ∈ bands) :
    bandRecord (withDefaults (k + 1) dev) i = recordOf k dev (some i) := by
  funext key
  unfold bandRecord recordOf
  cases hfind : opts.find? (·.key = key) with
  | some opt =>
      obtain rfl := opt_of_find hfind
      obtain ⟨htoken, -⟩ := tokenGet_two (k := k) hdev htwo (hgiven opt) hi
      obtain ⟨v, hv⟩ : ∃ v, withDefaults (k + 1) dev opt.key = some v := by
        rw [withDefaults_opt]
        cases hopt : dev opt.key with
        | some v => exact ⟨v, rfl⟩
        | none =>
            have hmesh : opt = .mesh := by
              by_contra hne
              exact hgiven opt hne hopt
            subst hmesh
            exact ⟨_, rfl⟩
      have hshared : opt.key ∉ sharedKeys := by cases opt <;> decide
      rw [hv] at htoken ⊢
      dsimp only
      rw [if_neg hshared, ← htoken, tokenGet, tokenGet]
      cases (tokens ';' v)[i - 1]? with
      | none => rfl
      | some token => rfl
  | none =>
      rw [withDefaults_other (k + 1) dev (not_opt_of_find hfind)]
      cases dev key with
      | none => rfl
      | some v =>
          dsimp only
          unfold tokenGet part
          dsimp only
          rw [Option.getD_some]
          cases (tokens ';' v)[i - 1]? with
          | none => rfl
          | some token => rfl

end Device

/-! ## Copies of names -/

section Copies

variable {copies : List (Option Text × Text)} {ifname ifname' : Text → Option Ref}

theorem copyNames_missing (h : ∃ copy ∈ copies, copy.1 = none) : copyNames copies ifname = none := by
  induction copies generalizing ifname with
  | nil =>
      obtain ⟨copy, hcopy, -⟩ := h
      cases hcopy
  | cons first copies ih =>
      obtain ⟨dst, main⟩ := first
      cases dst with
      | none => rfl
      | some name =>
          obtain ⟨copy, hcopy, hnone⟩ := h
          rcases List.mem_cons.mp hcopy with rfl | hcopy
          · cases hnone
          · exact ih ⟨copy, hcopy, hnone⟩

theorem copyNames_other (h : copyNames copies ifname = some ifname') {name : Text}
    (hname : ∀ copy ∈ copies, copy.1 ≠ some name) : ifname' name = ifname name := by
  induction copies generalizing ifname with
  | nil =>
      obtain rfl := Option.some.inj h
      rfl
  | cons first copies ih =>
      obtain ⟨dst, main⟩ := first
      cases dst with
      | none => cases h
      | some dst =>
          rw [ih h fun copy hcopy => hname copy (List.mem_cons_of_mem _ hcopy)]
          apply Function.update_of_ne
          rintro rfl
          exact hname _ List.mem_cons_self rfl

theorem copyNames_copied (hsome : ∀ copy ∈ copies, copy.1 ≠ none)
    (hname : ∀ copy ∈ copies, ∀ copy' ∈ copies, copy.1 ≠ some copy'.2)
    (hagree : ∀ copy ∈ copies, ∀ copy' ∈ copies, copy.1 = copy'.1 →
      ifname copy.2 = ifname copy'.2) :
    ∃ ifname', copyNames copies ifname = some ifname' ∧
      ∀ copy ∈ copies, ∀ name, copy.1 = some name → ifname' name = ifname copy.2 := by
  induction copies generalizing ifname with
  | nil => exact ⟨ifname, rfl, by simp⟩
  | cons first copies ih =>
      obtain ⟨dst, main⟩ := first
      cases dst with
      | none => exact absurd rfl (hsome _ List.mem_cons_self)
      | some dst =>
          have hkept : ∀ copy ∈ copies,
              Function.update ifname dst (ifname main) copy.2 = ifname copy.2 := by
            intro copy hcopy
            apply Function.update_of_ne
            intro hsame
            exact hname _ List.mem_cons_self copy (List.mem_cons_of_mem _ hcopy)
              (congrArg some hsame.symm)
          have hagree' : ∀ copy ∈ copies, ∀ copy' ∈ copies, copy.1 = copy'.1 →
              Function.update ifname dst (ifname main) copy.2 =
                Function.update ifname dst (ifname main) copy'.2 := by
            intro copy hcopy copy' hcopy' hsame
            rw [hkept copy hcopy, hkept copy' hcopy']
            exact hagree copy (List.mem_cons_of_mem _ hcopy) copy'
              (List.mem_cons_of_mem _ hcopy') hsame
          obtain ⟨ifname', hrun, hcopied⟩ := ih
            (fun copy hcopy => hsome copy (List.mem_cons_of_mem _ hcopy))
            (fun copy hcopy copy' hcopy' => hname copy (List.mem_cons_of_mem _ hcopy) copy'
              (List.mem_cons_of_mem _ hcopy')) hagree'
          refine ⟨ifname', hrun, fun copy hcopy name hdst => ?_⟩
          rcases List.mem_cons.mp hcopy with rfl | hcopy'
          · obtain rfl := Option.some.inj hdst
            -- A later copy to the same name copies the same record.
            by_cases hlater : ∃ copy ∈ copies, copy.1 = some dst
            · obtain ⟨copy, hlater, hsame⟩ := hlater
              rw [hcopied copy hlater dst hsame, hkept copy hlater]
              exact hagree copy (List.mem_cons_of_mem _ hlater) _ List.mem_cons_self hsame
            · push Not at hlater
              rw [copyNames_other hrun hlater, Function.update_self]
          · rw [hcopied copy hcopy' name hdst, hkept copy hcopy']

theorem copyNames_device {k : ℕ} (h : copyNames copies ifname = some ifname')
    (hmain : ∀ copy ∈ copies, ∃ band, ifname copy.2 = some ⟨k, band⟩) (name : Text) :
    ifname' name = ifname name ∨ ∃ band, ifname' name = some ⟨k, band⟩ := by
  induction copies generalizing ifname with
  | nil =>
      obtain rfl := Option.some.inj h
      exact Or.inl rfl
  | cons first copies ih =>
      obtain ⟨dst, main⟩ := first
      cases dst with
      | none => cases h
      | some dst =>
          obtain ⟨band, hband⟩ := hmain _ List.mem_cons_self
          have hwritten : ∀ name', Function.update ifname dst (ifname main) name' = ifname name' ∨
              Function.update ifname dst (ifname main) name' = some ⟨k, band⟩ := by
            intro name'
            by_cases hsame : name' = dst
            · right
              rw [hsame, Function.update_self]
              exact hband
            · left
              exact Function.update_of_ne hsame _ _
          have hmain' : ∀ copy ∈ copies,
              ∃ band, Function.update ifname dst (ifname main) copy.2 = some ⟨k, band⟩ := by
            intro copy hcopy
            rcases hwritten copy.2 with hkept | hnew
            · rw [hkept]
              exact hmain copy (List.mem_cons_of_mem _ hcopy)
            · exact ⟨band, hnew⟩
          rcases ih h hmain' with hsame | hown
          · rcases hwritten name with hkept | hnew
            · exact Or.inl (hsame.trans hkept)
            · exact Or.inr ⟨band, hsame.trans hnew⟩
          · exact Or.inr hown

end Copies

/-! ## The round for a device -/

section Round

variable {k : ℕ} {dev : Settings}

theorem mapM_eq_some {α β : Type} {f : α → Option β} {g : α → β} {l : List α}
    (h : ∀ a ∈ l, f a = some (g a)) : l.mapM f = some (l.map g) := by
  induction l with
  | nil => rfl
  | cons a l ih =>
      rw [List.mapM_cons, h a List.mem_cons_self, ih fun a' ha' => h a' (List.mem_cons_of_mem a ha')]
      rfl

theorem devnameOf_withDefaults (hdev : IsDevice dev) :
    devnameOf (withDefaults (k + 1) dev) =
      some ((dev indexKey).getD [] ++ '.' :: (dev mainidx).getD []) := by
  obtain ⟨index, hindex⟩ := Option.ne_none_iff_exists'.mp hdev.index
  obtain ⟨main, hmain⟩ := Option.ne_none_iff_exists'.mp hdev.mainidx
  have hkeys : ∀ opt : Opt, opt.key ≠ indexKey ∧ opt.key ≠ mainidx := by
    intro opt
    cases opt <;> decide
  rw [devnameOf, withDefaults_other _ _ fun opt => (hkeys opt).1,
    withDefaults_other _ _ fun opt => (hkeys opt).2, hindex, hmain]
  rfl

theorem indexDevice_one (hdev : IsDevice dev) (hone : (mainNames dev).length = 1) (t : Ridx) :
    indexDevice k (withDefaults (k + 1) dev) t =
      some ⟨writeAll ((interfaceNames k dev none).map fun name => (name, ⟨k, none⟩)) t.ifname,
        Function.update t.devname (deviceName k dev none) (some ⟨k, none⟩)⟩ := by
  obtain ⟨main, hmain, hjoined, -⟩ := hdev.main
  have htokens : tokens ';' main = [main] := by
    rw [mainNames, hmain] at hone
    exact tokens_eq_singleton hjoined hone
  have hwrites : ∀ opt ∈ opts, optWrites k (withDefaults (k + 1) dev) opt =
      some ((optNames k dev none opt).map fun name => (name, ⟨k, none⟩)) := by
    intro opt _
    obtain ⟨p, hp, hfront⟩ := withDefaults_one (k := k) hdev hone opt
    rw [optWrites, hp, optNames, hfront]
    simp
  have hnames : (interfaceNames k dev none).map (fun name => (name, (⟨k, none⟩ : Ref))) =
      (main, ⟨k, none⟩) ::
        (opts.map fun opt => (optNames k dev none opt).map fun name => (name, ⟨k, none⟩)).flatten := by
    rw [interfaceNames, mainName, hmain, Option.bind_some, part, htokens]
    simp [List.flatMap, List.map_flatten, Function.comp_def]
  have hdevice : deviceName k dev none = (dev indexKey).getD [] ++ '.' :: (dev mainidx).getD [] := by
    rw [deviceName, List.append_nil]
  unfold indexDevice
  rw [withDefaults_main, hmain, tokenGet, tokenGet, htokens, devnameOf_withDefaults hdev,
    mapM_eq_some hwrites, hnames, hdevice]
  rfl

theorem mem_optNames {band : Option ℕ} {opt : Opt} {name : Text} :
    name ∈ optNames k dev band opt ↔
      ∃ p, bandPrefix k dev band opt = some p ∧ ∃ i ∈ opt.numbers, name = p ++ decimal i := by
  unfold optNames
  simp only [List.mem_flatMap, Option.mem_toList, List.mem_map, eq_comm]

theorem mem_interfaceNames {band : Option ℕ} {name : Text} :
    name ∈ interfaceNames k dev band ↔
      mainName dev band = some name ∨ ∃ opt, name ∈ optNames k dev band opt := by
  unfold interfaceNames
  simp only [List.mem_append, Option.mem_toList, List.mem_flatMap, mem_opts, true_and]

theorem mem_optCopies (hdev : IsDevice dev) (htwo : (mainNames dev).length = 2)
    (hgiven : GivesPrefixes dev) (dbdc : ℕ → Text) {opt : Opt} {copy : Option Text × Text} :
    copy ∈ optCopies (withDefaults (k + 1) dev) dbdc opt ↔
      ∃ j ∈ bands, ∃ name ∈ optNames k dev (some j) opt, copy = (some name, dbdc j) := by
  unfold optCopies
  simp only [List.mem_flatMap]
  constructor
  · rintro ⟨i, hi, j, hj, hcopy⟩
    obtain ⟨htoken, hmissing⟩ := tokenGet_two (k := k) hdev htwo (hgiven opt) hj
    rw [htoken] at hcopy
    cases hfront : bandPrefix k dev (some j) opt with
    | none =>
        rw [hfront] at hcopy
        have hmesh : opt = .mesh := by
          by_contra hne
          exact hmissing hne hfront
        dsimp only at hcopy
        rw [if_pos hmesh] at hcopy
        cases hcopy
    | some p =>
        rw [hfront] at hcopy
        have hname : p ++ decimal i ∈ optNames k dev (some j) opt :=
          mem_optNames.mpr ⟨p, hfront, i, hi, rfl⟩
        exact ⟨j, hj, _, hname, List.mem_singleton.mp hcopy⟩
  · rintro ⟨j, hj, name, hname, rfl⟩
    obtain ⟨p, hfront, i, hi, rfl⟩ := mem_optNames.mp hname
    obtain ⟨htoken, -⟩ := tokenGet_two (k := k) hdev htwo (hgiven opt) hj
    refine ⟨i, hi, j, hj, ?_⟩
    rw [htoken, hfront]
    exact List.mem_singleton.mpr rfl

theorem exists_mainNames (hdev : IsDevice dev) (htwo : (mainNames dev).length = 2) :
    ∃ main1 main2, dev mainIfname = some ([';'].intercalate [main1, main2]) ∧
      tokens ';' ([';'].intercalate [main1, main2]) = [main1, main2] ∧
      mainName dev (some 1) = some main1 ∧ mainName dev (some 2) = some main2 := by
  obtain ⟨main, hmain, hjoined, -⟩ := hdev.main
  rw [mainNames, hmain] at htwo
  obtain ⟨main1, main2, htokens⟩ := List.length_eq_two.mp htwo
  rw [Option.getD_some] at htokens
  rw [htokens] at hjoined
  subst hjoined
  refine ⟨main1, main2, hmain, htokens, ?_, ?_⟩
  · rw [mainName, hmain, Option.bind_some, part, htokens]
    rfl
  · rw [mainName, hmain, Option.bind_some, part, htokens]
    rfl

theorem indexDevice_eq_two {main1 main2 : Text}
    (hmain : dev mainIfname = some ([';'].intercalate [main1, main2]))
    (htokens : tokens ';' ([';'].intercalate [main1, main2]) = [main1, main2]) (t : Ridx) :
    indexDevice k dev t =
      (indexBand k dev main1 1 t).bind fun t1 => (indexBand k dev main2 2 t1).bind fun t2 =>
        (copyNames (opts.flatMap (optCopies dev (dbdcIf main1 main2))) t2.ifname).bind fun ifname =>
          some { t2 with ifname := ifname } := by
  have hget1 : tokenGet (dev mainIfname) 1 none = some main1 := by
    rw [hmain, tokenGet, htokens]
    rfl
  have hget2 : tokenGet (dev mainIfname) 2 none = some main2 := by
    rw [hmain, tokenGet, htokens]
    rfl
  unfold indexDevice
  rw [hget1, hget2]
  rfl

theorem indexBand_eq (hdev : IsDevice dev) (htwo : (mainNames dev).length = 2)
    (hgiven : GivesPrefixes dev) {i : ℕ} (hi : i ∈ bands) (name : Text) (t : Ridx) :
    indexBand k (withDefaults (k + 1) dev) name i t =
      some ⟨Function.update t.ifname name (some ⟨k, some i⟩),
        Function.update t.devname (deviceName k dev (some i)) (some ⟨k, some i⟩)⟩ := by
  obtain ⟨sub, hsub⟩ : ∃ sub, recordOf k dev (some i) subidx = some sub := by
    have hfind : opts.find? (·.key = subidx) = none := by decide
    unfold recordOf
    rw [hfind]
    dsimp only
    cases dev subidx with
    | none => exact ⟨decimal i, rfl⟩
    | some v => exact ⟨_, if_neg (by decide)⟩
  have hname : deviceName k dev (some i) =
      ((dev indexKey).getD [] ++ '.' :: (dev mainidx).getD []) ++ '.' :: sub := by
    rw [deviceName, hsub, List.append_assoc]
    rfl
  rw [indexBand, devnameOf_withDefaults hdev, bandRecord_eq_recordOf hdev htwo hgiven hi, hsub, hname]

theorem main_ne_of_nodup {main1 main2 : Text} (hmain1 : mainName dev (some 1) = some main1)
    (hmain2 : mainName dev (some 2) = some main2)
    (hnodup : ([some 1, some 2].flatMap (interfaceNames k dev)).Nodup) :
    main1 ≠ main2 ∧ ∀ j ∈ bands, ∀ opt, ∀ name ∈ optNames k dev (some j) opt,
      name ≠ main1 ∧ name ≠ main2 := by
  have hlist : [some 1, some 2].flatMap (interfaceNames k dev) =
      main1 :: (opts.flatMap (optNames k dev (some 1)) ++
        main2 :: opts.flatMap (optNames k dev (some 2))) := by
    simp [interfaceNames, hmain1, hmain2]
  rw [hlist, List.nodup_cons, List.nodup_middle, List.nodup_cons] at hnodup
  obtain ⟨hnot1, hnot2, -⟩ := hnodup
  have hmem : ∀ j ∈ bands, ∀ opt, ∀ name ∈ optNames k dev (some j) opt,
      name ∈ opts.flatMap (optNames k dev (some 1)) ++ opts.flatMap (optNames k dev (some 2)) := by
    intro j hj opt name hname
    have hflat := List.mem_flatMap.mpr ⟨opt, mem_opts opt, hname⟩
    have hj' : j = 1 ∨ j = 2 := by simpa [bands] using hj
    rcases hj' with rfl | rfl
    · exact List.mem_append_left _ hflat
    · exact List.mem_append_right _ hflat
  constructor
  · rintro rfl
    exact hnot1 (List.mem_append_right _ List.mem_cons_self)
  · intro j hj opt name hname
    have hname' := hmem j hj opt name hname
    constructor
    · rintro rfl
      apply hnot1
      rcases List.mem_append.mp hname' with hname' | hname'
      · exact List.mem_append_left _ hname'
      · exact List.mem_append_right _ (List.mem_cons_of_mem _ hname')
    · rintro rfl
      exact hnot2 hname'

def withMains (k : ℕ) (main1 main2 : Text) (ifname : Text → Option Ref) : Text → Option Ref :=
  Function.update (Function.update ifname main1 (some ⟨k, some 1⟩)) main2 (some ⟨k, some 2⟩)

theorem withMains_band {main1 main2 : Text} (hmains : main1 ≠ main2) (ifname : Text → Option Ref)
    {j : ℕ} (hj : j ∈ bands) :
    withMains k main1 main2 ifname (dbdcIf main1 main2 j) = some ⟨k, some j⟩ := by
  have hj' : j = 1 ∨ j = 2 := by simpa [bands] using hj
  rcases hj' with rfl | rfl
  · exact (Function.update_of_ne hmains _ _).trans (Function.update_self _ _ _)
  · exact Function.update_self _ _ _

theorem band_eq_of_nodup (hnodup : ([some 1, some 2].flatMap (interfaceNames k dev)).Nodup)
    {i j : ℕ} (hi : i ∈ bands) (hj : j ∈ bands) {name : Text}
    (hnamei : name ∈ interfaceNames k dev (some i))
    (hnamej : name ∈ interfaceNames k dev (some j)) : i = j := by
  have hi' : i = 1 ∨ i = 2 := by simpa [bands] using hi
  have hj' : j = 1 ∨ j = 2 := by simpa [bands] using hj
  rw [List.flatMap_cons, List.flatMap_cons, List.flatMap_nil, List.append_nil,
    List.nodup_append'] at hnodup
  have hdisjoint := hnodup.2.2
  rcases hi' with rfl | rfl <;> rcases hj' with rfl | rfl
  · rfl
  · exact absurd hnamej (hdisjoint hnamei)
  · exact absurd hnamei (hdisjoint hnamej)
  · rfl

theorem copyNames_two (hdev : IsDevice dev) (htwo : (mainNames dev).length = 2)
    (hgiven : GivesPrefixes dev)
    (hnodup : ([some 1, some 2].flatMap (interfaceNames k dev)).Nodup) {main1 main2 : Text}
    (hmain1 : mainName dev (some 1) = some main1) (hmain2 : mainName dev (some 2) = some main2)
    (ifname : Text → Option Ref) :
    ∃ ifname', copyNames (opts.flatMap
        (optCopies (withDefaults (k + 1) dev) (dbdcIf main1 main2)))
        (withMains k main1 main2 ifname) = some ifname' ∧
      (∀ j ∈ bands, ∀ name ∈ interfaceNames k dev (some j), ifname' name = some ⟨k, some j⟩) ∧
      ∀ name, (∀ j ∈ bands, name ∉ interfaceNames k dev (some j)) →
        ifname' name = ifname name := by
  obtain ⟨hmains, hother⟩ := main_ne_of_nodup hmain1 hmain2 hnodup
  have hmain : ∀ j ∈ bands, mainName dev (some j) = some (dbdcIf main1 main2 j) ∧
      (dbdcIf main1 main2 j = main1 ∨ dbdcIf main1 main2 j = main2) := by
    intro j hj
    have hj' : j = 1 ∨ j = 2 := by simpa [bands] using hj
    rcases hj' with rfl | rfl
    · exact ⟨hmain1, Or.inl rfl⟩
    · exact ⟨hmain2, Or.inr rfl⟩
  have hcopies : ∀ copy, copy ∈ opts.flatMap
        (optCopies (withDefaults (k + 1) dev) (dbdcIf main1 main2)) ↔
      ∃ opt, ∃ j ∈ bands, ∃ name ∈ optNames k dev (some j) opt,
        copy = (some name, dbdcIf main1 main2 j) := by
    intro copy
    simp only [List.mem_flatMap, mem_opts, true_and, mem_optCopies hdev htwo hgiven]
  have hnotMain : ∀ j ∈ bands, ∀ j' ∈ bands, ∀ opt, ∀ name ∈ optNames k dev (some j) opt,
      name ≠ dbdcIf main1 main2 j' := by
    intro j hj j' hj' opt name hname
    obtain ⟨hne1, hne2⟩ := hother j hj opt name hname
    rcases (hmain j' hj').2 with hsame | hsame <;> rw [hsame]
    · exact hne1
    · exact hne2
  have hsome : ∀ copy ∈ opts.flatMap
      (optCopies (withDefaults (k + 1) dev) (dbdcIf main1 main2)), copy.1 ≠ none := by
    intro copy hcopy
    obtain ⟨opt, j, hj, name, hname, rfl⟩ := (hcopies copy).mp hcopy
    exact Option.some_ne_none name
  have hname : ∀ copy ∈ opts.flatMap
      (optCopies (withDefaults (k + 1) dev) (dbdcIf main1 main2)), ∀ copy' ∈ opts.flatMap
      (optCopies (withDefaults (k + 1) dev) (dbdcIf main1 main2)), copy.1 ≠ some copy'.2 := by
    intro copy hcopy copy' hcopy' hsame
    obtain ⟨opt, j, hj, name, hname, rfl⟩ := (hcopies copy).mp hcopy
    obtain ⟨opt', j', hj', name', hname', rfl⟩ := (hcopies copy').mp hcopy'
    exact hnotMain j hj j' hj' opt name hname (Option.some.inj hsame)
  have hagree : ∀ copy ∈ opts.flatMap
      (optCopies (withDefaults (k + 1) dev) (dbdcIf main1 main2)), ∀ copy' ∈ opts.flatMap
      (optCopies (withDefaults (k + 1) dev) (dbdcIf main1 main2)), copy.1 = copy'.1 →
      withMains k main1 main2 ifname copy.2 = withMains k main1 main2 ifname copy'.2 := by
    intro copy hcopy copy' hcopy' hsame
    obtain ⟨opt, j, hj, name, hname, rfl⟩ := (hcopies copy).mp hcopy
    obtain ⟨opt', j', hj', name', hname', rfl⟩ := (hcopies copy').mp hcopy'
    obtain rfl := Option.some.inj hsame
    rw [band_eq_of_nodup hnodup hj hj' (mem_interfaceNames.mpr (Or.inr ⟨opt, hname⟩))
      (mem_interfaceNames.mpr (Or.inr ⟨opt', hname'⟩))]
  obtain ⟨ifname', hrun, hcopied⟩ := copyNames_copied hsome hname hagree
  refine ⟨ifname', hrun, ?_, ?_⟩
  · intro j hj name hname
    rcases mem_interfaceNames.mp hname with hname | ⟨opt, hname⟩
    · have hsame : dbdcIf main1 main2 j = name :=
        Option.some.inj ((hmain j hj).1.symm.trans hname)
      rw [copyNames_other hrun, ← hsame, withMains_band hmains ifname hj]
      intro copy hcopy
      obtain ⟨opt, j', hj', name', hname', rfl⟩ := (hcopies copy).mp hcopy
      rw [← hsame]
      intro hdst
      exact hnotMain j' hj' j hj opt name' hname' (Option.some.inj hdst)
    · rw [hcopied _ ((hcopies _).mpr ⟨opt, j, hj, name, hname, rfl⟩) name rfl]
      exact withMains_band hmains ifname hj
  · intro name hname
    have hneMain : ∀ j ∈ bands, name ≠ dbdcIf main1 main2 j := by
      intro j hj hsame
      exact hname j hj (mem_interfaceNames.mpr (Or.inl (hsame ▸ (hmain j hj).1)))
    rw [copyNames_other hrun]
    · exact (Function.update_of_ne (hneMain 2 (by decide)) _ _).trans
        (Function.update_of_ne (hneMain 1 (by decide)) _ _)
    · intro copy hcopy
      obtain ⟨opt, j, hj, name', hname', rfl⟩ := (hcopies copy).mp hcopy
      intro hdst
      obtain rfl := Option.some.inj hdst
      exact hname j hj (mem_interfaceNames.mpr (Or.inr ⟨opt, hname'⟩))

theorem indexDevice_two (hdev : IsDevice dev) (htwo : (mainNames dev).length = 2)
    (hgiven : GivesPrefixes dev)
    (hnodup : ([some 1, some 2].flatMap (interfaceNames k dev)).Nodup) (t : Ridx) :
    ∃ ifname', (∀ j ∈ bands, ∀ name ∈ interfaceNames k dev (some j),
        ifname' name = some ⟨k, some j⟩) ∧
      (∀ name, (∀ j ∈ bands, name ∉ interfaceNames k dev (some j)) →
        ifname' name = t.ifname name) ∧
      indexDevice k (withDefaults (k + 1) dev) t =
        some ⟨ifname', Function.update
          (Function.update t.devname (deviceName k dev (some 1)) (some ⟨k, some 1⟩))
          (deviceName k dev (some 2)) (some ⟨k, some 2⟩)⟩ := by
  obtain ⟨main1, main2, hmain, htokens, hmain1, hmain2⟩ := exists_mainNames hdev htwo
  obtain ⟨ifname', hrun, hown, hframe⟩ :=
    copyNames_two hdev htwo hgiven hnodup hmain1 hmain2 t.ifname
  refine ⟨ifname', hown, hframe, ?_⟩
  rw [← withDefaults_main (k + 1) dev] at hmain
  rw [indexDevice_eq_two hmain htokens, indexBand_eq hdev htwo hgiven (by decide) main1 t,
    Option.bind_some, indexBand_eq hdev htwo hgiven (by decide) main2, Option.bind_some]
  exact Option.bind_eq_some_iff.mpr ⟨ifname', hrun, rfl⟩

end Round

end Nwa50ax.Wifi.L1
