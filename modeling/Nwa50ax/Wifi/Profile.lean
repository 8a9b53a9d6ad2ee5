import Nwa50ax.Lib.Tokens
import Mathlib.Logic.Function.Basic

/-!
# Wireless profiles

A profile holds the settings of up to sixteen networks of a radio: some as one
key per network, such as `SSID1`, some as a list with one token per network.
`vif_del` removes a network from it.
-/

namespace Nwa50ax.Wifi

open Tokens

abbrev Text := List Char

/-- A profile as a Lua table; an absent key is `nil`. -/
abbrev Cfgs := String → Option Text

def numbered (name : String) (idx : ℕ) : String := name ++ toString idx

/-! ## Lists with one token per network -/

/-- The matches of `[^;]+`. -/
def cfg2list (str : Text) : List Text := tokens ';' str

/-- `token_set` with a text `v`.  A list that is too short is padded with `v`. -/
def tokenSet (str : Option Text) (n : ℕ) (v : Text) : Option Text :=
  str.map fun str =>
    let tmp := cfg2list str
    let tmp :=
      if tmp.length < n then tmp ++ List.replicate (n - tmp.length) v
      -- Index 0 is not a part of the list.
      else if n = 0 then tmp
      else tmp.set (n - 1) v
    squeeze ';' (strip ';' ([';'].intercalate tmp))

/-- `token_get`; lists start at 1. -/
def tokenGet (str : Option Text) (n : ℕ) (v : Text) : Text :=
  match str with
  | none => v
  | some str => if n = 0 then v else ((cfg2list str)[n - 1]?).getD v

/-! ## Removing a network -/

/-- A setting that `__delete_mbss_para` resets. -/
inductive MbssPara where
  | key (name : String)
  | list (name : String)
  deriving DecidableEq

/-- The settings in the order of `__delete_mbss_para`. -/
def mbssParas : List MbssPara :=
  [.key "WPAPSK", .list "Key1Type", .list "Key2Type", .list "Key3Type", .list "Key4Type",
    .list "RADIUS_Server", .list "RADIUS_Port", .key "RADIUS_Key", .list "DefaultKeyID",
    .list "IEEE8021X", .list "WscConfMode", .list "PreAuth", .list "HT_STBC", .list "HT_LDPC",
    .list "VHT_STBC", .list "VHT_LDPC", .list "HideSSID", .list "NoForwarding",
    .list "WmmCapable", .list "TxRate", .list "RekeyInterval", .list "AuthMode",
    .list "EncrypType", .list "session_timeout_interval", .list "WscModeOption",
    .list "RekeyMethod", .list "PMFMFPC", .list "PMFMFPR", .list "PMFSHA256",
    .list "PMKCachePeriod", .list "Wapiifname", .list "RRMEnable", .list "DLSCapable",
    .list "APSDCapable", .list "FragThreshold", .list "RTSThreshold", .list "VHT_SGI",
    .list "VHT_BW_SIGNAL", .list "HT_PROTECT", .list "HT_GI", .list "HT_OpMode",
    .list "HT_TxStream", .list "HT_RxStream", .list "HT_AMSDU", .list "HT_AutoBA",
    .list "IgmpSnEnable", .list "WirelessMode", .list "WdsEnable"]

def MbssPara.keyOf (idx : ℕ) : MbssPara → String
  | .key name => numbered name idx
  | .list name => name

def MbssPara.reset (idx : ℕ) (old : Option Text) : MbssPara → Option Text
  | .key _ => some []
  | .list _ => tokenSet old idx []

/-- Assignments `cfgs[key] = f(cfgs[key])` one after the other. -/
def assignEach {ι : Type} (key : ι → String) (value : ι → Option Text → Option Text)
    (cfgs : Cfgs) (items : List ι) : Cfgs :=
  items.foldl (fun cfgs item => Function.update cfgs (key item) (value item (cfgs (key item)))) cfgs

def deleteMbssPara (cfgs : Cfgs) (idx : ℕ) : Cfgs :=
  assignEach (MbssPara.keyOf idx) (fun para old => para.reset idx old) cfgs mbssParas

def tonumber (text : Text) : Option ℕ :=
  if text ≠ [] ∧ text.all Char.isDigit then
    some (text.foldl (fun n c => 10 * n + (c.toNat - '0'.toNat)) 0)
  else none

def maxNetworks : ℕ := 16

/-- The values of `SSID1` to `SSID16` that are not empty.  A missing key is not
`""`: it takes a place in the table, as `nil`. -/
def ssidList (cfgs : Cfgs) : List (Option Text) :=
  ((List.range' 1 maxNetworks).map fun i => cfgs (numbered "SSID" i)).filter (· ≠ some [])

/-- The length of a table: the entries before the first `nil`. -/
def border (table : List (Option Text)) : ℕ := (table.takeWhile Option.isSome).length

def writeSsids (table : List (Option Text)) (bssidNum : ℕ) (cfgs : Cfgs) : Cfgs :=
  assignEach (numbered "SSID")
    (fun i old => if i ≤ bssidNum then (table[i - 1]?).getD none else old.map fun _ => [])
    cfgs (List.range' 1 maxNetworks)

/-- `datobj:merge`: keys that are `nil` in `cfgs` stay as they are in the file. -/
def mergeProfile (file cfgs : Cfgs) : Cfgs := fun key => (cfgs key).or (file key)

/-- `vif_del` for the network with index `idx`; `none` is a Lua error, from a
failed assertion or from concatenating `nil`. -/
def vifDel (file : Cfgs) (idx : ℕ) : Option Cfgs := do
  let cfgs := deleteMbssPara file idx
  let _ ← cfgs (numbered "SSID" idx)
  let cfgs := Function.update cfgs (numbered "SSID" idx) (some [])
  let _ ← cfgs (numbered "WPAPSK" idx)
  let cfgs := Function.update cfgs (numbered "WPAPSK" idx) (some [])
  let table := ssidList cfgs
  let bssidNum ← cfgs "BssidNum"
  if tonumber bssidNum = some (border table + 1) then
    let cfgs := Function.update cfgs "BssidNum" (some (toString (border table)).toList)
    some (mergeProfile file (writeSsids table (border table) cfgs))
  else none

/-! ## Networks -/

/-- A setting of a network: a key of its own, counted from `base`, or a token. -/
inductive Setting where
  | key (name : String) (base : ℕ)
  | token (name : String)
  deriving DecidableEq

/-- The value for network `i`; an absent one is empty. -/
def Setting.value (cfgs : Cfgs) (i : ℕ) : Setting → Text
  | .key name base => (cfgs (numbered name (i - 1 + base))).getD []
  | .token name => tokenGet (cfgs name) i []

/-- The settings that `vif_del` moves to the new index. -/
def movedSettings : List Setting :=
  .key "SSID" 1 :: mbssParas.filterMap fun
    | .key _ => none
    | .list name => some (.token name)

/-- The keys that `vif_del` only clears. -/
def clearedSettings : List Setting := [.key "WPAPSK" 1, .key "RADIUS_Key" 1]

/-- The settings of a network that `vif_del` does not touch. -/
def untouchedSettings : List Setting :=
  [.key "Key1Str" 1, .key "Key2Str" 1, .key "Key3Str" 1, .key "Key4Str" 1,
    .key "AccessPolicy" 0, .key "AccessControlList" 0, .token "HT_EXTCHA", .token "WscConfStatus",
    .token "VOW_Rate_Ctrl_En", .token "VOW_Group_Min_Rate", .token "VOW_Group_Max_Rate",
    .token "VOW_Airtime_Ctrl_En", .token "VOW_Group_Min_Ratio", .token "VOW_Group_Max_Ratio"]

def perNetworkSettings : List Setting := movedSettings ++ clearedSettings ++ untouchedSettings

/-- A profile of `n` networks. -/
structure Describes (cfgs : Cfgs) (n : ℕ) : Prop where
  bssidNum : (cfgs "BssidNum").bind tonumber = some n
  ssid : ∀ i, 1 ≤ i → i ≤ n → (Setting.key "SSID" 1).value cfgs i ≠ []
  noMore : ∀ i, n < i → i ≤ maxNetworks → (Setting.key "SSID" 1).value cfgs i = []

/-- Every list of the profile has one token per network. -/
def FullLists (cfgs : Cfgs) (n : ℕ) : Prop :=
  ∀ name, Setting.token name ∈ perNetworkSettings →
    ∀ str, cfgs name = some str → (cfg2list str).length = n

/-- The old index of network `i` when network `k` has been removed. -/
def oldIndex (k i : ℕ) : ℕ := if i < k then i else i + 1

/-- The profile describes the networks other than `k`, in their order and with
their settings. -/
structure Remaining (cfgs cfgs' : Cfgs) (n k : ℕ) : Prop where
  describes : Describes cfgs' (n - 1)
  settings : ∀ setting ∈ perNetworkSettings, ∀ i, 1 ≤ i → i < n →
    setting.value cfgs' i = setting.value cfgs (oldIndex k i)

/-- What `vif_del` leaves under an old index is right there: the keys it clears
were empty for the networks behind `k`, and the settings it does not touch are
the same for these networks and `k`. -/
structure KeepsIndex (cfgs : Cfgs) (n k : ℕ) : Prop where
  cleared : ∀ setting ∈ clearedSettings, ∀ i, k < i → i ≤ n → setting.value cfgs i = []
  untouched : ∀ setting ∈ untouchedSettings, ∀ i, k ≤ i → i < n →
    setting.value cfgs i = setting.value cfgs (i + 1)

/-! ## Tokens -/

theorem cfg2list_tokenSet {str : Text} {k : ℕ} (hk : 1 ≤ k) (hlength : k ≤ (cfg2list str).length) :
    ∃ str', tokenSet (some str) k [] = some str' ∧
      cfg2list str' = (cfg2list str).eraseIdx (k - 1) := by
  have htoken : ∀ part ∈ cfg2list str, IsToken ';' part := fun part hmem =>
    isToken_of_mem_tokens hmem
  have hset : ∀ part ∈ (cfg2list str).set (k - 1) [], ';' ∉ part := by
    intro part hmem
    rcases List.mem_or_eq_of_mem_set hmem with hmem | rfl
    · exact (htoken part hmem).2
    · simp
  refine ⟨_, rfl, ?_⟩
  simp only [if_neg (Nat.not_lt.mpr hlength), if_neg (Nat.one_le_iff_ne_zero.mp hk)]
  rw [cfg2list, tokens_squeeze, tokens_strip, tokens_intercalate hset,
    filter_set_nil fun part hmem => (htoken part hmem).1]

theorem tokenGet_tokenSet {str : Option Text} {n k i : ℕ} (hk : 1 ≤ k) (hkn : k ≤ n)
    (hstr : ∀ text, str = some text → (cfg2list text).length = n) (hi : 1 ≤ i) :
    tokenGet (tokenSet str k []) i [] = tokenGet str (oldIndex k i) [] := by
  cases str with
  | none => rfl
  | some text =>
      obtain ⟨text', hset, hlist⟩ := cfg2list_tokenSet hk (le_of_le_of_eq hkn (hstr text rfl).symm)
      have hold : oldIndex k i ≠ 0 := by unfold oldIndex; split <;> omega
      simp only [hset, tokenGet, if_neg (Nat.one_le_iff_ne_zero.mp hi), if_neg hold, hlist,
        List.getElem?_eraseIdx]
      unfold oldIndex
      split <;> split <;> first | rfl | omega | skip
      rw [Nat.sub_add_cancel hi, Nat.add_sub_cancel]

/-! ## Assignments -/

section Assignments

variable {ι : Type} {key : ι → String} {value : ι → Option Text → Option Text}

theorem assignEach_of_notMem {items : List ι} {k : String} (h : k ∉ items.map key) (cfgs : Cfgs) :
    assignEach key value cfgs items k = cfgs k := by
  induction items generalizing cfgs with
  | nil => rfl
  | cons item items ih =>
      rw [List.map_cons, List.mem_cons, not_or] at h
      exact (ih h.2 _).trans (Function.update_of_ne h.1 _ _)

theorem assignEach_of_mem {items : List ι} (hnodup : (items.map key).Nodup) {item : ι}
    (hmem : item ∈ items) (cfgs : Cfgs) :
    assignEach key value cfgs items (key item) = value item (cfgs (key item)) := by
  induction items generalizing cfgs with
  | nil => simp at hmem
  | cons first items ih =>
      rw [List.map_cons, List.nodup_cons] at hnodup
      rcases List.mem_cons.mp hmem with rfl | hmem
      · exact (assignEach_of_notMem hnodup.1 _).trans (Function.update_self _ _ _)
      · have hne : key item ≠ key first := fun heq =>
          hnodup.1 (heq ▸ List.mem_map_of_mem hmem)
        exact (ih hnodup.2 hmem _).trans (congrArg (value item) (Function.update_of_ne hne _ _))

end Assignments

/-! ## The keys of a profile -/

/-- Neither name starts with the other, so that no keys made of them are equal. -/
def Apart (name other : String) : Prop :=
  ¬name.toList <+: other.toList ∧ ¬other.toList <+: name.toList

instance (name other : String) : Decidable (Apart name other) :=
  inferInstanceAs (Decidable (_ ∧ _))

theorem prefix_numbered (name : String) (i : ℕ) : name.toList <+: (numbered name i).toList := by
  rw [numbered, String.toList_append]
  exact List.prefix_append _ _

theorem Apart.key_ne {name other key key' : String} (h : Apart name other)
    (hkey : name.toList <+: key.toList) (hkey' : other.toList <+: key'.toList) : key ≠ key' := by
  rintro rfl
  rcases List.prefix_or_prefix_of_prefix hkey hkey' with hprefix | hprefix
  · exact h.1 hprefix
  · exact h.2 hprefix

theorem tonumber_toString : ∀ m < maxNetworks + 1, tonumber (toString m).toList = some m := by
  decide

theorem numbered_ne {i j : ℕ} (hi : i ≤ maxNetworks) (hj : j ≤ maxNetworks) (hne : i ≠ j)
    (name : String) : numbered name i ≠ numbered name j := by
  intro heq
  rw [numbered, numbered, String.append_right_inj] at heq
  have hi' := tonumber_toString i (by omega)
  rw [heq, tonumber_toString j (by omega)] at hi'
  exact hne (Option.some.inj hi').symm

def MbssPara.name : MbssPara → String
  | .key name => name
  | .list name => name

theorem MbssPara.prefix_keyOf (para : MbssPara) (k : ℕ) :
    para.name.toList <+: (para.keyOf k).toList := by
  cases para with
  | key name => exact prefix_numbered name k
  | list name => exact List.prefix_refl _

theorem nodup_mbssNames : (mbssParas.map MbssPara.name).Nodup := by
  decide

theorem mbssKeys_apart : ∀ para ∈ mbssParas, para = .key para.name → ∀ other ∈ mbssParas,
    para ≠ other → Apart para.name other.name := by
  decide

theorem nodup_mbssKeys (k : ℕ) : (mbssParas.map (MbssPara.keyOf k)).Nodup := by
  refine (List.Nodup.of_map _ nodup_mbssNames).map_on fun para hpara other hother heq => ?_
  by_contra hne
  have hpre := para.prefix_keyOf k
  have hpre' := other.prefix_keyOf k
  cases para with
  | key name => exact (mbssKeys_apart _ hpara rfl _ hother hne).key_ne hpre hpre' heq
  | list name =>
      cases other with
      | key name' =>
          exact (mbssKeys_apart _ hother rfl _ hpara (Ne.symm hne)).key_ne hpre' hpre heq.symm
      | list name' => exact hne (congrArg MbssPara.list heq)

/-- A name that starts no key of `__delete_mbss_para`. -/
def FreeName (name : String) : Prop := ∀ para ∈ mbssParas, Apart name para.name

theorem FreeName.notMem {name key : String} (h : FreeName name)
    (hkey : name.toList <+: key.toList) (k : ℕ) : key ∉ mbssParas.map (MbssPara.keyOf k) := by
  intro hmem
  obtain ⟨para, hpara, heq⟩ := List.mem_map.mp hmem
  exact (h para hpara).key_ne hkey (para.prefix_keyOf k) heq.symm

theorem freeName_ssid : FreeName "SSID" := by
  unfold FreeName
  decide

theorem freeName_bssidNum : FreeName "BssidNum" := by
  unfold FreeName
  decide

theorem ssid_ne_bssidNum (i : ℕ) : numbered "SSID" i ≠ "BssidNum" := by
  have hapart : Apart "SSID" "BssidNum" := by decide
  exact hapart.key_ne (prefix_numbered _ _) (List.prefix_refl _)

theorem nodup_ssidKeys : ((List.range' 1 maxNetworks).map (numbered "SSID")).Nodup := by
  refine List.Nodup.map_on (fun i hi j hj heq => ?_) List.nodup_range'
  have hi := (List.mem_range'_1.mp hi).2
  have hj := (List.mem_range'_1.mp hj).2
  by_contra hne
  exact numbered_ne (by omega) (by omega) hne "SSID" heq

/-! ## The profile without the settings of a network -/

/-- The profile after the settings of network `k` have been cleared. -/
def clearNetwork (file : Cfgs) (k : ℕ) : Cfgs :=
  Function.update (Function.update (deleteMbssPara file k) (numbered "SSID" k) (some []))
    (numbered "WPAPSK" k) (some [])

theorem deleteMbssPara_of_mem {para : MbssPara} (h : para ∈ mbssParas) (file : Cfgs) (k : ℕ) :
    deleteMbssPara file k (para.keyOf k) = para.reset k (file (para.keyOf k)) :=
  assignEach_of_mem (nodup_mbssKeys k) h file

theorem wpapsk_mem : MbssPara.key "WPAPSK" ∈ mbssParas := List.mem_cons_self

theorem clearNetwork_of_ne_ssid {key : String} {k : ℕ} (hkey : key ≠ numbered "SSID" k)
    (file : Cfgs) : clearNetwork file k key = deleteMbssPara file k key := by
  by_cases hwpapsk : key = numbered "WPAPSK" k
  · subst hwpapsk
    rw [clearNetwork, Function.update_self]
    exact (deleteMbssPara_of_mem wpapsk_mem file k).symm
  · rw [clearNetwork, Function.update_of_ne hwpapsk, Function.update_of_ne hkey]

theorem clearNetwork_ssid {k i : ℕ} (hk : k ≤ maxNetworks) (hi : i ≤ maxNetworks) (file : Cfgs) :
    clearNetwork file k (numbered "SSID" i) =
      if i = k then some [] else file (numbered "SSID" i) := by
  have hwpapsk : numbered "SSID" i ≠ numbered "WPAPSK" k :=
    (freeName_ssid _ wpapsk_mem).key_ne (prefix_numbered _ _) (prefix_numbered _ _)
  by_cases hik : i = k
  · subst hik
    rw [clearNetwork, Function.update_of_ne hwpapsk, Function.update_self, if_pos rfl]
  · rw [clearNetwork_of_ne_ssid (numbered_ne hi hk hik "SSID"), if_neg hik]
    exact assignEach_of_notMem (freeName_ssid.notMem (prefix_numbered _ _) k) file

theorem clearNetwork_para {para : MbssPara} (h : para ∈ mbssParas) (file : Cfgs) (k : ℕ) :
    clearNetwork file k (para.keyOf k) = para.reset k (file (para.keyOf k)) := by
  have hne : para.keyOf k ≠ numbered "SSID" k := Ne.symm
    ((freeName_ssid para h).key_ne (prefix_numbered _ _) (para.prefix_keyOf k))
  rw [clearNetwork_of_ne_ssid hne, deleteMbssPara_of_mem h]

theorem clearNetwork_other {name : String} (h : MbssPara.key name ∈ mbssParas) {k i : ℕ}
    (hk : k ≤ maxNetworks) (hi : i ≤ maxNetworks) (hne : i ≠ k) (file : Cfgs) :
    clearNetwork file k (numbered name i) = file (numbered name i) := by
  have hssid : numbered name i ≠ numbered "SSID" k := Ne.symm
    ((freeName_ssid _ h).key_ne (prefix_numbered _ _) (prefix_numbered _ _))
  rw [clearNetwork_of_ne_ssid hssid]
  refine assignEach_of_notMem (fun hmem => ?_) file
  obtain ⟨para, hpara, heq⟩ := List.mem_map.mp hmem
  by_cases hsame : MbssPara.key name = para
  · subst hsame
    exact numbered_ne hk hi (Ne.symm hne) name heq
  · exact (mbssKeys_apart _ h rfl _ hpara hsame).key_ne (prefix_numbered _ _)
      (para.prefix_keyOf k) heq.symm

theorem clearNetwork_free {name key : String} (h : FreeName name) (hssid : Apart name "SSID")
    (hkey : name.toList <+: key.toList) (file : Cfgs) (k : ℕ) :
    clearNetwork file k key = file key := by
  rw [clearNetwork_of_ne_ssid (hssid.key_ne hkey (prefix_numbered _ _))]
  exact assignEach_of_notMem (h.notMem hkey k) file

/-! ## The names of the other networks -/

theorem Describes.ssid_eq {file : Cfgs} {n : ℕ} (h : Describes file n) {i : ℕ} (hi : 1 ≤ i)
    (hin : i ≤ n) : ∃ text, file (numbered "SSID" i) = some text ∧ text ≠ [] := by
  have hne := h.ssid i hi hin
  rw [Setting.value, Nat.sub_add_cancel hi] at hne
  cases hvalue : file (numbered "SSID" i) with
  | none => simp [hvalue] at hne
  | some text => exact ⟨text, rfl, by simpa [hvalue] using hne⟩

theorem Describes.ssid_none {file : Cfgs} {n : ℕ} (h : Describes file n) {i : ℕ} (hi : n < i)
    (himax : i ≤ maxNetworks) : (file (numbered "SSID" i)).getD [] = [] := by
  have hnil := h.noMore i hi himax
  rwa [Setting.value, Nat.sub_add_cancel (by omega)] at hnil

theorem map_range'_without {n k : ℕ} (hk : 1 ≤ k) (hkn : k ≤ n) {β : Type} (f : ℕ → β) :
    ((List.range' 1 n).filter (· ≠ k)).map f =
      (List.range' 1 (n - 1)).map fun i => f (oldIndex k i) := by
  have hbefore : ∀ i ∈ List.range' 1 (k - 1), i < k := by
    intro i hi
    have := (List.mem_range'_1.mp hi).2
    omega
  have hbehind : ∀ i ∈ List.range' (k + 1) (n - k), i ≠ k := by
    intro i hi
    have := (List.mem_range'_1.mp hi).1
    omega
  have hall : List.range' 1 n = List.range' 1 (k - 1) ++ k :: List.range' (k + 1) (n - k) := by
    rw [show k :: List.range' (k + 1) (n - k) = List.range' (1 + (k - 1)) (n - k + 1) by
      rw [List.range'_succ, Nat.add_sub_cancel' hk], List.range'_append_1]
    congr 1
    omega
  have hothers : List.range' 1 (n - 1) = List.range' 1 (k - 1) ++ List.range' k (n - k) := by
    rw [show List.range' k (n - k) = List.range' (1 + (k - 1)) (n - k) by
      rw [Nat.add_sub_cancel' hk], List.range'_append_1]
    congr 1
    omega
  have hshift : List.range' (k + 1) (n - k) = (List.range' k (n - k)).map (1 + ·) := by
    rw [List.map_add_range', Nat.add_comm 1 k]
  rw [hall, hothers, List.filter_append, List.filter_cons_of_neg (by simp),
    List.filter_eq_self.mpr fun i hi => by simpa using (hbefore i hi).ne,
    List.filter_eq_self.mpr fun i hi => by simpa using hbehind i hi, List.map_append,
    List.map_append, hshift, List.map_map]
  congr 1
  · refine List.map_congr_left fun i hi => ?_
    rw [oldIndex, if_pos (hbefore i hi)]
  · refine List.map_congr_left fun i hi => ?_
    have hki := (List.mem_range'_1.mp hi).1
    rw [Function.comp_apply, oldIndex, if_neg (Nat.not_lt.mpr hki), Nat.add_comm]

theorem ssidList_clearNetwork {file : Cfgs} {n k : ℕ} (h : Describes file n) (hk : 1 ≤ k)
    (hkn : k ≤ n) (hn : n ≤ maxNetworks) :
    ∃ rest, ssidList (clearNetwork file k) =
        ((List.range' 1 (n - 1)).map fun i => file (numbered "SSID" (oldIndex k i))) ++ rest ∧
      ∀ value ∈ rest, value = none := by
  have hsplit : List.range' 1 maxNetworks =
      List.range' 1 n ++ List.range' (1 + n) (maxNetworks - n) := by
    rw [List.range'_append_1, Nat.add_sub_cancel' hn]
  refine ⟨((List.range' (1 + n) (maxNetworks - n)).map fun i =>
    clearNetwork file k (numbered "SSID" i)).filter (· ≠ some []), ?_, ?_⟩
  · rw [ssidList, hsplit, List.map_append, List.filter_append]
    congr 1
    rw [← map_range'_without hk hkn fun i => file (numbered "SSID" i), List.filter_map,
      Function.comp_def]
    -- Exactly the name of network `k` is empty.
    have hkept : ∀ i ∈ List.range' 1 n,
        (clearNetwork file k (numbered "SSID" i) ≠ some [] ↔ i ≠ k) := by
      intro i hi
      obtain ⟨hi1, hin⟩ := List.mem_range'_1.mp hi
      rw [clearNetwork_ssid (hkn.trans hn) (by omega)]
      by_cases hik : i = k
      · simp [hik]
      · obtain ⟨text, htext, hne⟩ := h.ssid_eq hi1 (by omega)
        simp [hik, htext, hne]
    rw [List.filter_congr fun i hi => decide_eq_decide.mpr (hkept i hi)]
    refine List.map_congr_left fun i hi => ?_
    obtain ⟨hmem, hik⟩ := List.mem_filter.mp hi
    have hin := (List.mem_range'_1.mp hmem).2
    rw [clearNetwork_ssid (hkn.trans hn) (by omega), if_neg (by simpa using hik)]
  · intro value hvalue
    obtain ⟨hmem, hne⟩ := List.mem_filter.mp hvalue
    obtain ⟨i, hi, rfl⟩ := List.mem_map.mp hmem
    obtain ⟨hi1, himax⟩ := List.mem_range'_1.mp hi
    have hnil := h.ssid_none (show n < i by omega) (by omega)
    rw [clearNetwork_ssid (hkn.trans hn) (by omega), if_neg (by omega)] at hne ⊢
    cases hvalue : file (numbered "SSID" i) with
    | none => rfl
    | some text => simp_all

theorem border_ssidList {file : Cfgs} {n k : ℕ} (h : Describes file n) (hk : 1 ≤ k)
    (hkn : k ≤ n) (hn : n ≤ maxNetworks) : border (ssidList (clearNetwork file k)) = n - 1 := by
  obtain ⟨rest, htable, hrest⟩ := ssidList_clearNetwork h hk hkn hn
  have hsome : ∀ value ∈ (List.range' 1 (n - 1)).map fun i =>
      file (numbered "SSID" (oldIndex k i)), value.isSome = true := by
    intro value hvalue
    obtain ⟨i, hi, rfl⟩ := List.mem_map.mp hvalue
    obtain ⟨hi1, hin⟩ := List.mem_range'_1.mp hi
    obtain ⟨text, htext, -⟩ := h.ssid_eq (i := oldIndex k i)
      (by unfold oldIndex; split <;> omega) (by unfold oldIndex; split <;> omega)
    rw [htext]
    rfl
  have hnone : rest.takeWhile Option.isSome = [] := by
    cases rest with
    | nil => rfl
    | cons value rest => simp [hrest value List.mem_cons_self]
  rw [border, htable, List.takeWhile_append_of_pos hsome, hnone]
  simp

theorem ssidList_getElem {file : Cfgs} {n k i : ℕ} (h : Describes file n) (hk : 1 ≤ k)
    (hkn : k ≤ n) (hn : n ≤ maxNetworks) (hi : 1 ≤ i) (hin : i ≤ n - 1) :
    ((ssidList (clearNetwork file k))[i - 1]?).getD none =
      file (numbered "SSID" (oldIndex k i)) := by
  obtain ⟨rest, htable, -⟩ := ssidList_clearNetwork h hk hkn hn
  rw [htable, List.getElem?_append_left (by simp; omega), List.getElem?_map,
    List.getElem?_range' (by omega)]
  simp [Nat.add_sub_cancel' hi]

/-! ## The result -/

/-- The profile that `vif_del` saves. -/
def withoutNetwork (file : Cfgs) (n k : ℕ) : Cfgs :=
  mergeProfile file (writeSsids (ssidList (clearNetwork file k)) (n - 1)
    (Function.update (clearNetwork file k) "BssidNum" (some (toString (n - 1)).toList)))

theorem vifDel_eq {file : Cfgs} {n k : ℕ} (h : Describes file n) (hk : 1 ≤ k)
    (hkn : k ≤ n) (hn : n ≤ maxNetworks) : vifDel file k = some (withoutNetwork file n k) := by
  obtain ⟨ssid, hssid, -⟩ := h.ssid_eq hk hkn
  have hdelete : deleteMbssPara file k (numbered "SSID" k) = some ssid :=
    (assignEach_of_notMem (freeName_ssid.notMem (prefix_numbered _ _) k) file).trans hssid
  have hwpapsk : Function.update (deleteMbssPara file k) (numbered "SSID" k) (some [])
      (numbered "WPAPSK" k) = some [] := by
    have hne : numbered "WPAPSK" k ≠ numbered "SSID" k := Ne.symm
      ((freeName_ssid _ wpapsk_mem).key_ne (prefix_numbered _ _) (prefix_numbered _ _))
    rw [Function.update_of_ne hne]
    exact deleteMbssPara_of_mem wpapsk_mem file k
  obtain ⟨bssidNum, hbssidNum, hnumber⟩ := Option.bind_eq_some_iff.mp h.bssidNum
  have hclear : clearNetwork file k "BssidNum" = some bssidNum :=
    (clearNetwork_free freeName_bssidNum (by decide) (List.prefix_refl _) file k).trans hbssidNum
  have hborder := border_ssidList h hk hkn hn
  have hcount : tonumber bssidNum = some (n - 1 + 1) := by
    rw [hnumber, Nat.sub_add_cancel (hk.trans hkn)]
  unfold vifDel
  simp only [hdelete, hwpapsk, Option.bind_eq_bind, Option.bind_some]
  rw [show Function.update (Function.update (deleteMbssPara file k) (numbered "SSID" k) (some []))
    (numbered "WPAPSK" k) (some []) = clearNetwork file k from rfl, hclear, Option.bind_some,
    hborder, if_pos hcount]
  rfl

theorem withoutNetwork_of_free {file : Cfgs} {n k : ℕ} {name key : String}
    (hssid : Apart name "SSID") (hbssidNum : Apart name "BssidNum")
    (hkey : name.toList <+: key.toList) :
    withoutNetwork file n k key = (clearNetwork file k key).or (file key) := by
  have hne : key ∉ (List.range' 1 maxNetworks).map (numbered "SSID") := by
    intro hmem
    obtain ⟨i, -, heq⟩ := List.mem_map.mp hmem
    exact hssid.key_ne hkey (prefix_numbered _ _) heq.symm
  rw [withoutNetwork, mergeProfile, writeSsids, assignEach_of_notMem hne,
    Function.update_of_ne (hbssidNum.key_ne hkey (List.prefix_refl _))]

theorem withoutNetwork_ssid {file : Cfgs} {n k i : ℕ} (hi : 1 ≤ i) (himax : i ≤ maxNetworks) :
    withoutNetwork file n k (numbered "SSID" i) =
      (if i ≤ n - 1 then ((ssidList (clearNetwork file k))[i - 1]?).getD none
        else (clearNetwork file k (numbered "SSID" i)).map fun _ => []).or
          (file (numbered "SSID" i)) := by
  have hmem : i ∈ List.range' 1 maxNetworks := List.mem_range'_1.mpr ⟨hi, by omega⟩
  rw [withoutNetwork, mergeProfile, writeSsids, assignEach_of_mem nodup_ssidKeys hmem,
    Function.update_of_ne (ssid_ne_bssidNum i)]

theorem withoutNetwork_bssidNum {file : Cfgs} {n k : ℕ} :
    withoutNetwork file n k "BssidNum" = some (toString (n - 1)).toList := by
  have hne : "BssidNum" ∉ (List.range' 1 maxNetworks).map (numbered "SSID") := by
    intro hmem
    obtain ⟨i, -, heq⟩ := List.mem_map.mp hmem
    exact ssid_ne_bssidNum i heq
  rw [withoutNetwork, mergeProfile, writeSsids, assignEach_of_notMem hne, Function.update_self]
  rfl

/-! ## What the other networks are left with -/

section Values

variable {file : Cfgs} {n k : ℕ}

theorem oldIndex_pos {i : ℕ} (hi : 1 ≤ i) : 1 ≤ oldIndex k i := by
  unfold oldIndex
  split <;> omega

theorem oldIndex_le {i : ℕ} (hi : i < n) : oldIndex k i ≤ n := by
  unfold oldIndex
  split <;> omega

theorem ssid_value (h : Describes file n) (hk : 1 ≤ k) (hkn : k ≤ n) (hn : n ≤ maxNetworks)
    {i : ℕ} (hi : 1 ≤ i) (hin : i < n) :
    (Setting.key "SSID" 1).value (withoutNetwork file n k) i =
      (Setting.key "SSID" 1).value file (oldIndex k i) := by
  obtain ⟨text, htext, -⟩ := h.ssid_eq (oldIndex_pos hi) (oldIndex_le (k := k) hin)
  rw [Setting.value, Setting.value, Nat.sub_add_cancel hi, Nat.sub_add_cancel (oldIndex_pos hi),
    withoutNetwork_ssid hi (by omega), if_pos (by omega),
    ssidList_getElem h hk hkn hn hi (by omega), htext]
  rfl

theorem ssid_value_behind (hkn : k ≤ n) (hn : n ≤ maxNetworks) {i : ℕ} (hi : n - 1 < i)
    (himax : i ≤ maxNetworks) :
    (Setting.key "SSID" 1).value (withoutNetwork file n k) i = [] := by
  have hi1 : 1 ≤ i := by omega
  rw [Setting.value, Nat.sub_add_cancel hi1, withoutNetwork_ssid hi1 himax,
    if_neg (by omega), clearNetwork_ssid (hkn.trans hn) himax]
  by_cases hik : i = k
  · simp [hik]
  · rw [if_neg hik]
    cases hvalue : file (numbered "SSID" i) <;> rfl

theorem token_value (hk : 1 ≤ k) (hkn : k ≤ n) (hlists : FullLists file n) {name : String}
    (hpara : MbssPara.list name ∈ mbssParas) (hname : Setting.token name ∈ perNetworkSettings)
    {i : ℕ} (hi : 1 ≤ i) :
    (Setting.token name).value (withoutNetwork file n k) i =
      (Setting.token name).value file (oldIndex k i) := by
  have hssid : Apart name "SSID" := And.symm (freeName_ssid _ hpara)
  have hbssidNum : Apart name "BssidNum" := And.symm (freeName_bssidNum _ hpara)
  have hclear : clearNetwork file k name = tokenSet (file name) k [] :=
    clearNetwork_para hpara file k
  have hor : (tokenSet (file name) k []).or (file name) = tokenSet (file name) k [] := by
    cases file name <;> rfl
  rw [Setting.value, Setting.value, withoutNetwork_of_free hssid hbssidNum (List.prefix_refl _),
    hclear, hor, tokenGet_tokenSet hk hkn (hlists name hname) hi]

theorem cleared_value (hkmax : k ≤ maxNetworks) {name : String}
    (hpara : MbssPara.key name ∈ mbssParas) {i : ℕ} (hi : 1 ≤ i) (himax : i ≤ maxNetworks) :
    (Setting.key name 1).value (withoutNetwork file n k) i =
      if i = k then [] else (Setting.key name 1).value file i := by
  have hssid : Apart name "SSID" := And.symm (freeName_ssid _ hpara)
  have hbssidNum : Apart name "BssidNum" := And.symm (freeName_bssidNum _ hpara)
  rw [Setting.value, Setting.value, Nat.sub_add_cancel hi,
    withoutNetwork_of_free hssid hbssidNum (prefix_numbered _ _)]
  by_cases hik : i = k
  · subst hik
    have hclear : clearNetwork file i (numbered name i) = some [] := clearNetwork_para hpara file i
    rw [hclear, if_pos rfl]
    rfl
  · rw [clearNetwork_other hpara hkmax himax hik, Option.or_self, if_neg hik]

def Setting.name : Setting → String
  | .key name _ => name
  | .token name => name

theorem untouched_apart : ∀ setting ∈ untouchedSettings, FreeName setting.name ∧
    Apart setting.name "SSID" ∧ Apart setting.name "BssidNum" := by
  unfold FreeName
  decide

theorem untouched_value {setting : Setting} (h : setting ∈ untouchedSettings) (i : ℕ) :
    setting.value (withoutNetwork file n k) i = setting.value file i := by
  obtain ⟨hfree, hssid, hbssidNum⟩ := untouched_apart setting h
  have hkey : ∀ key, setting.name.toList <+: key.toList →
      withoutNetwork file n k key = file key := by
    intro key hprefix
    rw [withoutNetwork_of_free hssid hbssidNum hprefix, clearNetwork_free hfree hssid hprefix,
      Option.or_self]
  cases setting with
  | key name base =>
      rw [Setting.value, Setting.value, hkey (numbered name _) (prefix_numbered name _)]
  | token name => rw [Setting.value, Setting.value, hkey name (List.prefix_refl _)]

theorem describes_withoutNetwork (h : Describes file n) (hk : 1 ≤ k) (hkn : k ≤ n)
    (hn : n ≤ maxNetworks) : Describes (withoutNetwork file n k) (n - 1) where
  bssidNum := by
    rw [withoutNetwork_bssidNum, Option.bind_some]
    exact tonumber_toString (n - 1) (by omega)
  ssid i hi hin := by
    rw [ssid_value h hk hkn hn hi (by omega)]
    exact h.ssid _ (oldIndex_pos hi) (oldIndex_le (by omega))
  noMore i hi himax := ssid_value_behind hkn hn hi himax

theorem mem_movedSettings {setting : Setting} (h : setting ∈ movedSettings) :
    setting = .key "SSID" 1 ∨ ∃ name, setting = .token name ∧ MbssPara.list name ∈ mbssParas := by
  rcases List.mem_cons.mp h with rfl | h
  · exact .inl rfl
  · obtain ⟨para, hpara, heq⟩ := List.mem_filterMap.mp h
    cases para with
    | key name => simp at heq
    | list name => exact .inr ⟨name, (Option.some.inj heq).symm, hpara⟩

theorem clearedSettings_para : ∀ setting ∈ clearedSettings,
    setting = .key setting.name 1 ∧ MbssPara.key setting.name ∈ mbssParas := by
  decide

theorem Remaining.cleared (h : Remaining file (withoutNetwork file n k) n k) (hk : 1 ≤ k)
    (hn : n ≤ maxNetworks) {setting : Setting} (hsetting : setting ∈ clearedSettings) (d : ℕ)
    (hd : k + d + 1 ≤ n) : setting.value file (k + d + 1) = [] := by
  obtain ⟨heq, hpara⟩ := clearedSettings_para setting hsetting
  have hmem : setting ∈ perNetworkSettings :=
    List.mem_append_left _ (List.mem_append_right _ hsetting)
  have hmoved := h.settings setting hmem
  rw [heq] at hmoved ⊢
  induction d with
  | zero =>
      have hfirst := hmoved k hk (by omega)
      rwa [cleared_value (by omega) hpara hk (by omega), if_pos rfl, oldIndex,
        if_neg (Nat.lt_irrefl k), eq_comm] at hfirst
  | succ d ih =>
      have hnext := hmoved (k + d + 1) (by omega) (by omega)
      rwa [cleared_value (by omega) hpara (by omega) (by omega), if_neg (by omega), oldIndex,
        if_neg (by omega), ih (by omega), eq_comm] at hnext

end Values

def twoNetworks : Cfgs := fun key =>
  match key with
  | "BssidNum" => some "2".toList
  | "SSID1" => some "home".toList
  | "SSID2" => some "guest".toList
  | "WPAPSK1" => some "secret".toList
  | "WPAPSK2" => some "welcome".toList
  | "AuthMode" => some "WPA2PSK;WPA3PSK".toList
  | "EncrypType" => some "AES;AES".toList
  | _ => none

theorem describes_twoNetworks : Describes twoNetworks 2 where
  bssidNum := by decide +kernel
  ssid i hi hin := by
    have hcases : i = 1 ∨ i = 2 := by omega
    rcases hcases with rfl | rfl <;> decide +kernel
  noMore i hi himax := by
    have hall : ∀ i < maxNetworks + 1, 2 < i → (Setting.key "SSID" 1).value twoNetworks i = [] := by
      decide +kernel
    exact hall i (by omega) hi

theorem fullLists_twoNetworks : FullLists twoNetworks 2 := by
  have hall : ∀ setting ∈ perNetworkSettings, ∀ str ∈ twoNetworks setting.name,
      setting = .token setting.name → (cfg2list str).length = 2 := by
    decide +kernel
  intro name hname str hstr
  exact hall _ hname str hstr rfl

end Nwa50ax.Wifi
