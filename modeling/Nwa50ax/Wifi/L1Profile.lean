import Nwa50ax.Lib.LuaPattern
import Nwa50ax.Lib.Tokens
import Nwa50ax.Lib.Writes

/-!
# The wireless L1 profile

The file lists the radios `INDEX0`, `INDEX1`, … with one setting per line.  A radio
with two bands gives its settings as two tokens.  `load_l1_profile` collects the
settings, adds the defaults and builds two reverse indices: from interface names
and from device names to the record of a radio or of one of its bands.
-/

namespace Nwa50ax.Wifi.L1

open LuaPattern Tokens Writes

abbrev Text := List Char

/-- A Lua table of settings; an absent key is `nil`. -/
abbrev Settings := Text → Option Text

def noSettings : Settings := fun _ => none

def decimal (n : ℕ) : Text := (toString n).toList

def mainIfname : Text := "main_ifname".toList
def indexKey : Text := "INDEX".toList
def mainidx : Text := "mainidx".toList
def subidx : Text := "subidx".toList

/-! ## The lines of the file -/

inductive Line
  | skip
  | field (device : ℕ) (name value : Text)
  | index (device : ℕ) (chipset : Text)
  deriving DecidableEq

def number (digits : Text) : ℕ :=
  digits.foldl (fun n c => 10 * n + (c.toNat - '0'.toNat)) 0

/-- `INDEX(%d+)_(.+)`. -/
def fieldPattern : List Item :=
  lit indexKey ++ [.openCapture, .maxRepeat isDigit 1, .closeCapture, .single (· == '_'),
    .openCapture, .maxRepeat isAny 1, .closeCapture]

/-- `INDEX(%d+)`. -/
def indexPattern : List Item :=
  lit indexKey ++ [.openCapture, .maxRepeat isDigit 1, .closeCapture]

/-- A line by its key; `none` if the key names no device, which is an error. -/
def parseKey (k v : Text) : Option Line :=
  match find fieldPattern k with
  | some ⟨_, [k1, k2], _⟩ => some (.field (number k1) k2 v)
  | _ =>
      match find indexPattern k with
      | some ⟨_, [k1], _⟩ => some (.index (number k1) v)
      | _ => none

def parseLine (line : Text) : Option Line :=
  let line := trim line
  if line.head? = some '#' then some .skip
  else if '=' ∈ line then
    parseKey (trim (line.takeWhile (· != '='))) (trim ((line.dropWhile (· != '=')).drop 1))
  else some .skip

/-- The table while the file is read.  Devices count from 0 here and from 1 in
the table, and all of them are below `bound`. -/
structure Parsed where
  devs : ℕ → Option Settings
  bound : ℕ
  chipsetNum : Text → ℕ

def Parsed.empty : Parsed := ⟨fun _ => none, 0, fun _ => 0⟩

def Parsed.setField (p : Parsed) (device : ℕ) (name value : Text) : Parsed where
  -- The metatable creates the table of a device when it is first asked for.
  devs := Function.update p.devs device
    (some (Function.update ((p.devs device).getD noSettings) name (some value)))
  bound := max p.bound (device + 1)
  chipsetNum := p.chipsetNum

def Parsed.apply (p : Parsed) : Line → Parsed
  | .skip => p
  | .field device name value => p.setField device name value
  | .index device chipset =>
      let num := p.chipsetNum chipset + 1
      { (p.setField device indexKey chipset).setField device mainidx (decimal num) with
        chipsetNum := Function.update p.chipsetNum chipset num }

def readLines (lines : List Text) : Option Parsed :=
  lines.foldlM (fun p line => (parseLine line).map p.apply) Parsed.empty

/-! ## Defaults -/

/-- `token_get`; tokens count from 1. -/
def tokenGet (str : Option Text) (n : ℕ) (v : Option Text) : Option Text :=
  match str with
  | none => v
  | some str => ((tokens ';' str)[n - 1]?).or v

inductive Opt
  | ext
  | apcli
  | wds
  | mesh
  deriving DecidableEq

def Opt.key : Opt → Text
  | .ext => "ext_ifname".toList
  | .apcli => "apcli_ifname".toList
  | .wds => "wds_ifname".toList
  | .mesh => "mesh_ifname".toList

def Opt.default : Opt → Text
  | .ext => []
  | .apcli => "apcli".toList
  | .wds => "wds".toList
  | .mesh => "mesh".toList

def maxNumExtif : ℕ := 16
def maxNumApcli : ℕ := 1
def maxNumWds : ℕ := 4
def maxNumMesh : ℕ := 1

def Opt.numbers : Opt → List ℕ
  | .ext => List.range' 1 (maxNumExtif - 1)
  | .apcli => List.range maxNumApcli
  | .wds => List.range maxNumWds
  | .mesh => List.range maxNumMesh

def opts : List Opt := [.ext, .apcli, .wds, .mesh]

/-- The default of `add_default_value` for device `k`, counted from 1. -/
def defaultPrefix (k : ℕ) (dev : Settings) : Opt → Option Text
  | .ext => (dev mainIfname).map (· ++ ['_'])
  | opt => some (opt.default ++ (decimal k ++ ['_']))

/-- The body of `add_default_value`.  Each round sets another key and reads
`main_ifname` only, so the order of `pairs` does not matter. -/
def addDefaultValue (k : ℕ) (dev : Settings) : Option Settings :=
  opts.foldlM (fun dev opt =>
    match dev opt.key with
    | some _ => some dev
    | none => (defaultPrefix k dev opt).map fun v => Function.update dev opt.key (some v)) dev

/-- `ipairs`: the devices from `k` on, up to the first one that is missing. -/
def ipairs (devs : ℕ → Option Settings) : ℕ → ℕ → List Settings
  | 0, _ => []
  | fuel + 1, k =>
      match devs k with
      | none => []
      | some dev => dev :: ipairs devs fuel (k + 1)

def addDefaults : ℕ → List Settings → Option (List Settings)
  | _, [] => some []
  | k, dev :: devs => do
      let dev ← addDefaultValue (k + 1) dev
      let devs ← addDefaults (k + 1) devs
      some (dev :: devs)

/-! ## Reverse indices -/

/-- A record of the table: a device, or one of its bands. -/
structure Ref where
  device : ℕ
  band : Option ℕ
  deriving DecidableEq

structure Ridx where
  ifname : Text → Option Ref
  devname : Text → Option Ref

def Ridx.empty : Ridx := ⟨fun _ => none, fun _ => none⟩

def bands : List ℕ := [1, 2]

def sharedKeys : List Text :=
  [indexKey, "EEPROM_offset".toList, "EEPROM_size".toList, mainidx]

scoped instance lawfulText : LawfulBEq Text := inferInstance

def bandRecord (dev : Settings) (i : ℕ) : Settings := fun key =>
  match dev key with
  | none => if key = subidx then some (decimal i) else none
  | some v => if key ∈ sharedKeys then some v else tokenGet (some v) i (some [])

/-- `dev.INDEX.."."..dev.mainidx`. -/
def devnameOf (dev : Settings) : Option Text :=
  match dev indexKey, dev mainidx with
  | some index, some main => some (index ++ '.' :: main)
  | _, _ => none

def indexBand (k : ℕ) (dev : Settings) (name : Text) (i : ℕ) (t : Ridx) : Option Ridx :=
  match devnameOf dev, bandRecord dev i subidx with
  | some devname, some sub =>
      some ⟨Function.update t.ifname name (some ⟨k, some i⟩),
        Function.update t.devname (devname ++ '.' :: sub) (some ⟨k, some i⟩)⟩
  | _, _ => none

/-- `devs[ridx][prefix..i] = devs[ridx][main]`, one after the other; a missing
prefix is an error. -/
def copyNames : List (Option Text × Text) → (Text → Option Ref) → Option (Text → Option Ref)
  | [], ifname => some ifname
  | (none, _) :: _, _ => none
  | (some name, main) :: copies, ifname =>
      copyNames copies (Function.update ifname name (ifname main))

/-- The copies for one prefix; only `mesh_if[j]` may be missing. -/
def optCopies (dev : Settings) (dbdc : ℕ → Text) (opt : Opt) : List (Option Text × Text) :=
  opt.numbers.flatMap fun i => bands.flatMap fun j =>
    match tokenGet (dev opt.key) j none with
    | none => if opt = .mesh then [] else [(none, dbdc j)]
    | some p => [(some (p ++ decimal i), dbdc j)]

def optWrites (k : ℕ) (dev : Settings) (opt : Opt) : Option (List (Text × Ref)) :=
  (dev opt.key).map fun p => opt.numbers.map fun i => (p ++ decimal i, ⟨k, none⟩)

/-- `dbdc_if` of a device with two bands. -/
def dbdcIf (main1 main2 : Text) (j : ℕ) : Text := if j = 1 then main1 else main2

/-- The round of the last loop for device `k`, counted from 0. -/
def indexDevice (k : ℕ) (dev : Settings) (t : Ridx) : Option Ridx :=
  match tokenGet (dev mainIfname) 1 none, tokenGet (dev mainIfname) 2 none with
  | some main1, some main2 => do
      let t ← indexBand k dev main1 1 t
      let t ← indexBand k dev main2 2 t
      let ifname ← copyNames (opts.flatMap (optCopies dev (dbdcIf main1 main2))) t.ifname
      some { t with ifname := ifname }
  | _, _ => do
      let main ← dev mainIfname
      let devname ← devnameOf dev
      let writes ← opts.mapM (optWrites k dev)
      some ⟨writeAll ((main, ⟨k, none⟩) :: writes.flatten) t.ifname,
        Function.update t.devname devname (some ⟨k, none⟩)⟩

def indexDevices : ℕ → List Settings → Ridx → Option Ridx
  | _, [], t => some t
  | k, dev :: devs, t => (indexDevice k dev t).bind (indexDevices (k + 1) devs)

/-- The table that `load_l1_profile` returns. -/
structure L1Table where
  devs : List Settings
  ridx : Ridx

def L1Table.record (table : L1Table) (ref : Ref) : Option Settings :=
  (table.devs[ref.device]?).map fun dev =>
    match ref.band with
    | none => dev
    | some i => bandRecord dev i

def loadL1Profile (lines : List Text) : Option L1Table := do
  let p ← readLines lines
  let devs ← addDefaults 0 (ipairs p.devs p.bound 0)
  let ridx ← indexDevices 0 devs Ridx.empty
  some ⟨devs, ridx⟩

/-! ## Files and what they say -/

def IsSpaces (s : Text) : Prop := ∀ c ∈ s, isSpace c = true

inductive Renders : Text → Line → Prop
  | comment (u rest : Text) (hu : IsSpaces u) : Renders (u ++ '#' :: rest) .skip
  | noValue (line : Text) (hline : '=' ∉ line) : Renders line .skip
  | field (u digits name v w value z : Text) (hu : IsSpaces u) (hdigits : digits ≠ [])
      (hdigit : ∀ c ∈ digits, isDigit c = true) (hname : name ≠ []) (hequals : '=' ∉ name)
      (hlast : ∀ c, name.getLast? = some c → isSpace c = false) (hv : IsSpaces v)
      (hw : IsSpaces w) (hvalue : Trimmed value) (hz : IsSpaces z) :
      Renders (u ++ ((indexKey ++ (digits ++ '_' :: name)) ++ (v ++ '=' :: (w ++ (value ++ z)))))
        (.field (number digits) name value)
  | index (u digits v w value z : Text) (hu : IsSpaces u) (hdigits : digits ≠ [])
      (hdigit : ∀ c ∈ digits, isDigit c = true) (hv : IsSpaces v) (hw : IsSpaces w)
      (hvalue : Trimmed value) (hz : IsSpaces z) :
      Renders (u ++ ((indexKey ++ digits) ++ (v ++ '=' :: (w ++ (value ++ z)))))
        (.index (number digits) value)

def Line.device? : Line → Option ℕ
  | .skip => none
  | .field device _ _ => some device
  | .index device _ => some device

def Line.chipset? : Line → Option Text
  | .index _ chipset => some chipset
  | _ => none

def latest : List Line → ℕ → Settings
  | [], _, _ => none
  | .skip :: earlier, k, key => latest earlier k key
  | .field device name value :: earlier, k, key =>
      if device = k ∧ name = key then some value else latest earlier k key
  | .index device chipset :: earlier, k, key =>
      if device = k ∧ mainidx = key then
        some (decimal ((earlier.filter (·.chipset? = some chipset)).length + 1))
      else if device = k ∧ indexKey = key then some chipset
      else latest earlier k key

def settings (file : List Line) (k : ℕ) : Settings := latest file.reverse k

/-! ## Reading a line -/

section Lines

variable {digits name value u v w z key : Text}

theorem find_field (hdigits : digits ≠ []) (hdigit : ∀ c ∈ digits, isDigit c = true)
    (hname : name ≠ []) :
    find fieldPattern (indexKey ++ (digits ++ '_' :: name)) = some ⟨[], [digits, name], []⟩ := by
  have hnamed : doMatch [.openCapture, .maxRepeat isAny 1, .closeCapture]
      (digits ++ '_' :: name) name = some ⟨[name], []⟩ := by
    have hrun : doMatch [.maxRepeat isAny 1, .closeCapture] name (name ++ []) =
        some ⟨[name], []⟩ := by
      apply doMatch_maxRepeat_run (fun _ _ => rfl) (by simp) (List.length_pos_iff.mpr hname)
      exact doMatch_closeCapture_end name
    rwa [List.append_nil] at hrun
  have hmatch : doMatch fieldPattern [] (indexKey ++ (digits ++ '_' :: name)) =
      some ⟨[digits, name], []⟩ := by
    rw [fieldPattern, doMatch_lit, doMatch_openCapture]
    apply doMatch_maxRepeat_run hdigit _ (List.length_pos_iff.mpr hdigits)
    · rw [doMatch_closeCapture, doMatch_single_cons (p := (· == '_')) rfl, hnamed]
      rfl
    · intro c hc
      obtain rfl := Option.some.inj hc
      decide
  exact find_first noMatchIn_nil hmatch

theorem parseKey_field (hdigits : digits ≠ []) (hdigit : ∀ c ∈ digits, isDigit c = true)
    (hname : name ≠ []) :
    parseKey (indexKey ++ (digits ++ '_' :: name)) value =
      some (.field (number digits) name value) := by
  rw [parseKey, find_field hdigits hdigit hname]

theorem underscore_of_doMatch {start s : Text} {m : Match}
    (h : doMatch fieldPattern start s = some m) : '_' ∈ s := by
  obtain ⟨s', rfl, hopen⟩ := doMatch_lit_some h
  rw [doMatch_openCapture] at hopen
  obtain ⟨run, rest, rfl, -, -, hclose⟩ := doMatch_maxRepeat_some hopen
  obtain ⟨m', hsingle, -⟩ := doMatch_closeCapture_some hclose
  obtain ⟨c, rest', rfl, hc, -⟩ := doMatch_single_some hsingle
  rw [beq_iff_eq] at hc
  rw [hc]
  simp

theorem parseKey_index (hdigits : digits ≠ []) (hdigit : ∀ c ∈ digits, isDigit c = true) :
    parseKey (indexKey ++ digits) value = some (.index (number digits) value) := by
  have hnot : '_' ∉ indexKey ++ digits := by
    intro hmem
    rcases List.mem_append.mp hmem with hmem | hmem
    · exact absurd hmem (by decide)
    · exact absurd (hdigit _ hmem) (by decide)
  have hfield : find fieldPattern (indexKey ++ digits) = none := by
    refine find_none (fun a b hsplit _ => ?_) rfl
    by_contra hmatch
    obtain ⟨m, hm⟩ := Option.ne_none_iff_exists'.mp hmatch
    have hmem := underscore_of_doMatch hm
    rw [List.append_nil] at hmem
    apply hnot
    rw [hsplit]
    exact List.mem_append_right a hmem
  have hindex : doMatch indexPattern [] (indexKey ++ digits) = some ⟨[digits], []⟩ := by
    rw [indexPattern, doMatch_lit, doMatch_openCapture]
    have hrun : doMatch [.maxRepeat isDigit 1, .closeCapture] digits (digits ++ []) =
        some ⟨[digits], []⟩ := by
      apply doMatch_maxRepeat_run hdigit (by simp) (List.length_pos_iff.mpr hdigits)
      exact doMatch_closeCapture_end digits
    rwa [List.append_nil] at hrun
  rw [parseKey, hfield, ← List.nil_append (indexKey ++ digits), find_first noMatchIn_nil hindex]

theorem exists_value (hw : IsSpaces w) (hvalue : Trimmed value) (hz : IsSpaces z) :
    ∃ tail z', w ++ (value ++ z) = tail ++ z' ∧ IsSpaces z' ∧ trim tail = value ∧
      ∀ c, tail.getLast? = some c → isSpace c = false := by
  by_cases hempty : value = []
  · subst hempty
    refine ⟨[], w ++ z, rfl, ?_, rfl, by simp⟩
    intro c hc
    rcases List.mem_append.mp hc with hc | hc
    · exact hw c hc
    · exact hz c hc
  · have htrim := trim_padded (v := []) hw hvalue (by simp)
    rw [List.append_nil] at htrim
    refine ⟨w ++ value, z, (List.append_assoc w value z).symm, hz, htrim, ?_⟩
    rw [List.getLast?_append_of_ne_nil w hempty]
    exact hvalue.last

theorem parseLine_keyed (hu : IsSpaces u) (hhead : key.head? = some 'I') (hkey : Trimmed key)
    (hequals : '=' ∉ key) (hv : IsSpaces v) (hw : IsSpaces w) (hvalue : Trimmed value)
    (hz : IsSpaces z) :
    parseLine (u ++ (key ++ (v ++ '=' :: (w ++ (value ++ z))))) = parseKey key value := by
  obtain ⟨tail, z', htail, hz', htrim, hlast⟩ := exists_value hw hvalue hz
  have hne : key ≠ [] := by
    intro hnil
    rw [hnil] at hhead
    cases hhead
  have hbody : Trimmed (key ++ (v ++ '=' :: tail)) := by
    constructor
    · rw [List.head?_append_of_ne_nil key hne]
      exact hkey.head
    · rw [← List.append_assoc, List.getLast?_append_of_ne_nil _ (List.cons_ne_nil _ _)]
      cases tail with
      | nil =>
          intro c hc
          obtain rfl := Option.some.inj hc
          decide
      | cons c tail =>
          rw [List.getLast?_cons_cons]
          exact hlast
  have hline : trim (u ++ (key ++ (v ++ '=' :: (w ++ (value ++ z))))) =
      key ++ (v ++ '=' :: tail) := by
    have hpadded := trim_padded hu hbody hz'
    rw [htail]
    simpa using hpadded
  have hbefore : ∀ c ∈ key ++ v, (c != '=') = true := by
    intro c hc
    rw [bne_iff_ne]
    rintro rfl
    rcases List.mem_append.mp hc with hc | hc
    · exact hequals hc
    · exact absurd (hv _ hc) (by decide)
  have hkeyed : trim (key ++ v) = key := trim_padded (u := []) (by simp) hkey hv
  have htake : (key ++ (v ++ '=' :: tail)).takeWhile (· != '=') = key ++ v := by
    rw [← List.append_assoc]
    exact takeWhile_run hbefore (by simp)
  have hdrop : (key ++ (v ++ '=' :: tail)).dropWhile (· != '=') = '=' :: tail := by
    rw [← List.append_assoc, List.dropWhile_append_of_pos hbefore]
    rfl
  have hfirst : (key ++ (v ++ '=' :: tail)).head? ≠ some '#' := by
    rw [List.head?_append_of_ne_nil key hne, hhead]
    decide
  unfold parseLine
  dsimp only
  rw [hline, if_neg hfirst, if_pos (by simp), htake, hdrop, hkeyed, List.drop_one, List.tail_cons,
    htrim]

theorem parseLine_comment (hu : IsSpaces u) (rest : Text) :
    parseLine (u ++ '#' :: rest) = some .skip := by
  obtain ⟨u', core, v', hsplit, hu', hcore, hv'⟩ := exists_trimmed ('#' :: rest)
  have hhash : ¬isSpace '#' = true := by decide
  have hfirst : u' = [] := by
    cases u' with
    | nil => rfl
    | cons c u' =>
        obtain rfl := (List.cons.inj hsplit).1
        exact absurd (hu' _ List.mem_cons_self) hhash
  subst hfirst
  cases core with
  | nil =>
      rw [List.nil_append, List.nil_append] at hsplit
      rw [← hsplit] at hv'
      exact absurd (hv' _ List.mem_cons_self) hhash
  | cons c core =>
      obtain rfl := (List.cons.inj hsplit).1
      unfold parseLine
      dsimp only
      rw [hsplit, List.nil_append, trim_padded hu hcore hv', if_pos List.head?_cons]

theorem parseLine_noValue {line : Text} (hline : '=' ∉ line) : parseLine line = some .skip := by
  obtain ⟨u', core, v', rfl, hu', hcore, hv'⟩ := exists_trimmed line
  have hnot : '=' ∉ core := fun hmem =>
    hline (List.mem_append_right u' (List.mem_append_left v' hmem))
  unfold parseLine
  dsimp only
  rw [trim_padded hu' hcore hv', if_neg hnot, ite_self]

theorem Renders.parse {text : Text} {line : Line} (h : Renders text line) :
    parseLine text = some line := by
  cases h with
  | comment u rest hu => exact parseLine_comment hu rest
  | noValue line hline => exact parseLine_noValue hline
  | field u digits name v w value z hu hdigits hdigit hname hequals hlast hv hw hvalue hz =>
      have hkey : Trimmed (indexKey ++ (digits ++ '_' :: name)) := by
        constructor
        · intro c hc
          obtain rfl := Option.some.inj hc
          decide
        · rw [List.append_cons, ← List.append_assoc, ← List.append_assoc,
            List.getLast?_append_of_ne_nil _ hname]
          exact hlast
      rw [parseLine_keyed hu rfl hkey _ hv hw hvalue hz, parseKey_field hdigits hdigit hname]
      intro hmem
      simp only [List.mem_append, List.mem_cons] at hmem
      rcases hmem with hmem | hmem | hmem | hmem
      · exact absurd hmem (by decide)
      · exact absurd (hdigit _ hmem) (by decide)
      · exact absurd hmem (by decide)
      · exact hequals hmem
  | index u digits v w value z hu hdigits hdigit hv hw hvalue hz =>
      have hkey : Trimmed (indexKey ++ digits) := by
        constructor
        · intro c hc
          obtain rfl := Option.some.inj hc
          decide
        · rw [List.getLast?_append_of_ne_nil _ hdigits]
          intro c hc
          exact isSpace_of_isDigit (hdigit c (List.mem_of_getLast? hc))
      rw [parseLine_keyed hu rfl hkey _ hv hw hvalue hz, parseKey_index hdigits hdigit]
      intro hmem
      rcases List.mem_append.mp hmem with hmem | hmem
      · exact absurd hmem (by decide)
      · exact absurd (hdigit _ hmem) (by decide)

end Lines

/-! ## Reading the file -/

theorem readLines_eq {lines : List Text} {file : List Line} (h : List.Forall₂ Renders lines file) :
    readLines lines = some (file.foldl Parsed.apply Parsed.empty) := by
  unfold readLines
  generalize Parsed.empty = p
  induction h generalizing p with
  | nil => rfl
  | cons hline _ ih =>
      rw [List.foldlM_cons, hline.parse]
      exact ih _

structure Holds (lines : List Line) (p : Parsed) : Prop where
  settings : ∀ k, (p.devs k).getD noSettings = latest lines k
  device : ∀ k, (p.devs k).isSome ↔ ∃ line ∈ lines, line.device? = some k
  bound : ∀ k, (p.devs k).isSome → k < p.bound
  chipset : ∀ chipset, p.chipsetNum chipset =
    (lines.filter (·.chipset? = some chipset)).length

section SetField

variable (p : Parsed) (device : ℕ) (name value : Text)

theorem setField_settings (k : ℕ) (key : Text) :
    ((p.setField device name value).devs k).getD noSettings key =
      if device = k ∧ name = key then some value else (p.devs k).getD noSettings key := by
  unfold Parsed.setField
  dsimp only
  by_cases hk : device = k
  · subst hk
    rw [Function.update_self, Option.getD_some, Function.update_apply]
    simp only [true_and, eq_comm]
  · rw [Function.update_of_ne (Ne.symm hk), if_neg (fun h => hk h.1)]

theorem setField_device (k : ℕ) :
    ((p.setField device name value).devs k).isSome ↔ device = k ∨ (p.devs k).isSome := by
  unfold Parsed.setField
  dsimp only
  by_cases hk : device = k
  · subst hk
    simp
  · rw [Function.update_of_ne (Ne.symm hk)]
    simp [hk]

theorem setField_bound (h : ∀ k, (p.devs k).isSome → k < p.bound) (k : ℕ)
    (hk : ((p.setField device name value).devs k).isSome) :
    k < (p.setField device name value).bound := by
  rw [setField_device] at hk
  rcases hk with rfl | hk
  · exact lt_max_of_lt_right (Nat.lt_succ_self device)
  · exact lt_max_of_lt_left (h k hk)

end SetField

theorem holds_empty : Holds [] Parsed.empty := by
  constructor <;> simp [Parsed.empty, latest, noSettings, funext_iff]

theorem Holds.apply {lines : List Line} {p : Parsed} (h : Holds lines p) (line : Line) :
    Holds (line :: lines) (p.apply line) := by
  cases line with
  | skip =>
      constructor
      · exact h.settings
      · intro k
        rw [Parsed.apply, h.device k]
        simp [Line.device?]
      · exact h.bound
      · intro chipset
        rw [Parsed.apply, h.chipset chipset]
        simp [Line.chipset?]
  | field device name value =>
      constructor
      · intro k
        funext key
        rw [Parsed.apply, setField_settings, h.settings k, latest]
      · intro k
        rw [Parsed.apply, setField_device, h.device k]
        simp [Line.device?]
      · exact setField_bound p device name value h.bound
      · intro chipset
        rw [show (p.apply (.field device name value)).chipsetNum = p.chipsetNum from rfl,
          h.chipset chipset]
        simp [Line.chipset?]
  | index device chipset =>
      constructor
      · intro k
        funext key
        rw [latest, ← h.chipset chipset, ← h.settings k]
        exact (setField_settings _ device mainidx _ k key).trans
          (by rw [setField_settings p device indexKey chipset k key])
      · intro k
        have hdevice : ((p.apply (.index device chipset)).devs k).isSome ↔
            device = k ∨ device = k ∨ (p.devs k).isSome := by
          rw [← setField_device p device indexKey chipset k]
          exact setField_device _ device mainidx _ k
        rw [hdevice, h.device k]
        simp [Line.device?]
      · exact setField_bound _ device mainidx _ (setField_bound p device indexKey chipset h.bound)
      · intro chipset'
        rw [Parsed.apply]
        dsimp only
        rw [Function.update_apply]
        by_cases hsame : chipset' = chipset
        · subst hsame
          rw [if_pos rfl, h.chipset]
          simp [Line.chipset?]
        · rw [if_neg hsame, h.chipset]
          simp [Line.chipset?, Ne.symm hsame]

theorem holds_foldl (file : List Line) :
    Holds file.reverse (file.foldl Parsed.apply Parsed.empty) := by
  induction file using List.reverseRecOn with
  | nil => exact holds_empty
  | append_singleton file line ih =>
      rw [List.foldl_append, List.reverse_append]
      exact ih.apply line

theorem ipairs_eq {devs : ℕ → Option Settings} {n : ℕ} (hdevs : ∀ k, (devs k).isSome ↔ k < n)
    (fuel k : ℕ) (hk : k ≤ n) (hfuel : n ≤ k + fuel) :
    ipairs devs fuel k = (List.range' k (n - k)).map fun k => (devs k).getD noSettings := by
  induction fuel generalizing k with
  | zero =>
      rw [show n - k = 0 by omega]
      rfl
  | succ fuel ih =>
      rw [ipairs]
      by_cases hlast : k = n
      · have hnone : devs k = none := by
          by_contra hsome
          have hlt := (hdevs k).mp (Option.isSome_iff_ne_none.mpr hsome)
          omega
        rw [hnone, hlast, Nat.sub_self]
        rfl
      · obtain ⟨dev, hdev⟩ := Option.isSome_iff_exists.mp ((hdevs k).mpr (by omega))
        rw [hdev, ih (k + 1) (by omega) (by omega), show n - k = n - (k + 1) + 1 by omega,
          List.range'_succ, List.map_cons, hdev]
        rfl

theorem ipairs_file {file : List Line} {n : ℕ}
    (hfile : ∀ k, k < n ↔ ∃ line ∈ file, line.device? = some k) :
    ipairs (file.foldl Parsed.apply Parsed.empty).devs
        (file.foldl Parsed.apply Parsed.empty).bound 0 =
      (List.range n).map (settings file) := by
  have hholds := holds_foldl file
  have hdevs : ∀ k, ((file.foldl Parsed.apply Parsed.empty).devs k).isSome ↔ k < n := by
    intro k
    rw [hholds.device k, hfile k]
    simp only [List.mem_reverse]
  have hbound : n ≤ (file.foldl Parsed.apply Parsed.empty).bound := by
    cases n with
    | zero => exact Nat.zero_le _
    | succ n => exact hholds.bound n ((hdevs n).mpr (Nat.lt_succ_self n))
  rw [ipairs_eq hdevs _ 0 (Nat.zero_le n) (by omega), Nat.sub_zero, ← List.range_eq_range']
  exact List.map_congr_left fun k _ => hholds.settings k

/-! ## The defaults -/

def setDefault (k : ℕ) (dev : Settings) (opt : Opt) : Settings :=
  Function.update dev opt.key ((dev opt.key).or (defaultPrefix k dev opt))

def withDefaults (k : ℕ) (dev : Settings) : Settings := opts.foldl (setDefault k) dev

theorem Opt.key_injective {opt opt' : Opt} (h : opt.key = opt'.key) : opt = opt' := by
  revert h
  cases opt <;> cases opt' <;> decide

theorem Opt.key_ne_main (opt : Opt) : opt.key ≠ mainIfname := by
  cases opt <;> decide

theorem setDefault_main (k : ℕ) (dev : Settings) (opt : Opt) :
    setDefault k dev opt mainIfname = dev mainIfname :=
  Function.update_of_ne opt.key_ne_main.symm _ _

theorem defaultPrefix_congr {k : ℕ} {dev dev' : Settings} (h : dev mainIfname = dev' mainIfname)
    (opt : Opt) : defaultPrefix k dev opt = defaultPrefix k dev' opt := by
  cases opt with
  | ext => rw [defaultPrefix, defaultPrefix, h]
  | apcli => rfl
  | wds => rfl
  | mesh => rfl

theorem foldl_setDefault (k : ℕ) (dev : Settings) {rounds : List Opt} (hrounds : rounds.Nodup)
    (key : Text) :
    (∀ opt ∈ rounds, opt.key = key →
      rounds.foldl (setDefault k) dev key = (dev key).or (defaultPrefix k dev opt)) ∧
    ((∀ opt ∈ rounds, opt.key ≠ key) → rounds.foldl (setDefault k) dev key = dev key) := by
  induction rounds generalizing dev with
  | nil => simp
  | cons first rounds ih =>
      obtain ⟨hfirst, hrounds⟩ := List.nodup_cons.mp hrounds
      obtain ⟨hown, hother⟩ := ih (setDefault k dev first) hrounds
      rw [List.foldl_cons]
      constructor
      · intro opt hopt hkey
        rcases List.mem_cons.mp hopt with rfl | hopt
        · rw [hother, ← hkey, setDefault, Function.update_self]
          intro opt' hopt' hkey'
          exact hfirst (Opt.key_injective (hkey.trans hkey'.symm) ▸ hopt')
        · have hne : key ≠ first.key := by
            intro hsame
            exact hfirst (Opt.key_injective (hkey.trans hsame) ▸ hopt)
          rw [hown opt hopt hkey, defaultPrefix_congr (setDefault_main k dev first) opt, setDefault,
            Function.update_of_ne hne]
      · intro hkeys
        rw [hother fun opt hopt => hkeys opt (List.mem_cons_of_mem first hopt), setDefault,
          Function.update_of_ne (hkeys first List.mem_cons_self).symm]

theorem withDefaults_opt (k : ℕ) (dev : Settings) (opt : Opt) :
    withDefaults k dev opt.key = (dev opt.key).or (defaultPrefix k dev opt) :=
  (foldl_setDefault k dev (by decide) opt.key).1 opt (by cases opt <;> decide) rfl

theorem withDefaults_other (k : ℕ) (dev : Settings) {key : Text} (h : ∀ opt : Opt, opt.key ≠ key) :
    withDefaults k dev key = dev key :=
  (foldl_setDefault k dev (by decide) key).2 fun opt _ => h opt

theorem withDefaults_main (k : ℕ) (dev : Settings) :
    withDefaults k dev mainIfname = dev mainIfname :=
  withDefaults_other k dev Opt.key_ne_main

theorem addDefaultValue_eq {k : ℕ} {dev : Settings} (hmain : dev mainIfname ≠ none) :
    addDefaultValue k dev = some (withDefaults k dev) := by
  unfold addDefaultValue withDefaults
  generalize opts = rounds
  induction rounds generalizing dev with
  | nil => rfl
  | cons opt rounds ih =>
      have hround : (match dev opt.key with
          | some _ => some dev
          | none => (defaultPrefix k dev opt).map fun v =>
              Function.update dev opt.key (some v)) = some (setDefault k dev opt) := by
        unfold setDefault
        cases hvalue : dev opt.key with
        | some v =>
            have hsame : Function.update dev opt.key (some v) = dev := by
              rw [← hvalue, Function.update_eq_self]
            rw [Option.some_or, hsame]
        | none =>
            obtain ⟨v, hv⟩ : ∃ v, defaultPrefix k dev opt = some v := by
              obtain ⟨main, hmain⟩ := Option.ne_none_iff_exists'.mp hmain
              cases opt with
              | ext => exact ⟨main ++ ['_'], by rw [defaultPrefix, hmain]; rfl⟩
              | apcli => exact ⟨_, rfl⟩
              | wds => exact ⟨_, rfl⟩
              | mesh => exact ⟨_, rfl⟩
            rw [hv]
            rfl
      rw [List.foldlM_cons, hround]
      exact ih (by rwa [setDefault_main])

theorem addDefaults_eq {devs : ℕ → Settings} (k n : ℕ)
    (hmain : ∀ j, k ≤ j → j < k + n → devs j mainIfname ≠ none) :
    addDefaults k ((List.range' k n).map devs) =
      some ((List.range' k n).map fun j => withDefaults (j + 1) (devs j)) := by
  induction n generalizing k with
  | zero => rfl
  | succ n ih =>
      rw [List.range'_succ, List.map_cons, List.map_cons, addDefaults,
        addDefaultValue_eq (hmain k le_rfl (by omega)),
        ih (k + 1) fun j hj hj' => hmain j (by omega) (by omega)]
      rfl

end Nwa50ax.Wifi.L1
