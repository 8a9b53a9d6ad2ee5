import Nwa50ax.Lib.LuaPattern

/-!
# The EasyMesh BSS configuration file

`save_easymesh_bss_cfgs` writes one line per BSS with the fields separated by
spaces, and `load_easymesh_bss_cfgs` finds the fields again with pattern searches.
The controller escapes backslashes and white space in SSIDs and pass phrases.
-/

namespace Nwa50ax.Wifi.EasyMesh

open LuaPattern

abbrev Text := List Char

structure BssInfo where
  ssid : Text
  authMode : Text
  encType : Text
  passPhrase : Text
  isBhBssSupported : Text
  isFhBssSupported : Text
  isHidden : Text
  fhVlanId : Text
  primVlan : Text
  defPCP : Text
  deriving DecidableEq

/-- A table from AL-MACs to bands to entries, in the order in which `pairs` goes
through it. -/
abbrev AlMacCfgs := List (Text × List (Text × List BssInfo))

structure Cfgs where
  wildCardAlMacCfgs : AlMacCfgs
  distinctAlMacCfgs : AlMacCfgs

structure Bss where
  alMac : Text
  band : Text
  info : BssInfo
  deriving DecidableEq

def entries (cfgs : AlMacCfgs) : List Bss :=
  cfgs.flatMap fun alMacTbl => alMacTbl.2.flatMap fun bssInfoTbl =>
    bssInfoTbl.2.map fun info => ⟨alMacTbl.1, bssInfoTbl.1, info⟩

/-! ## Saving -/

def restFields (info : BssInfo) : Text :=
  info.isBhBssSupported ++ ' ' :: (info.isFhBssSupported ++ ' ' :: (info.isHidden ++
    ' ' :: (info.fhVlanId ++ ' ' :: (info.primVlan ++ ' ' :: info.defPCP))))

def bssFields (info : BssInfo) : Text :=
  info.ssid ++ ' ' :: (info.authMode ++ ' ' :: (info.encType ++ ' ' :: (info.passPhrase ++
    ' ' :: restFields info)))

def bssLine (lineIdx : ℕ) (bss : Bss) : Text :=
  (toString lineIdx).toList ++ ',' :: (bss.alMac ++ ' ' :: (bss.band ++ ' ' :: bssFields bss.info))

def bssLines : ℕ → List Bss → List Text
  | _, [] => []
  | lineIdx, bss :: rest => bssLine lineIdx bss :: bssLines (lineIdx + 1) rest

def saveEasymeshBssCfgs (cfgs : Cfgs) : Text :=
  (bssLines 1 (entries cfgs.distinctAlMacCfgs ++ entries cfgs.wildCardAlMacCfgs)).flatMap
    fun line => line ++ ['\n']

/-! ## Loading -/

/-- `(.-)\r?\n`. -/
def linePattern : List Item :=
  [.openCapture, .minRepeat isAny, .closeCapture, .optional (· == '\r'), .single (· == '\n')]

/-- `__lines`: the captures of all matches and what is left of the text. -/
def lines (str : Text) : List Text :=
  (gmatch linePattern str).map (fun captures => captures.headD []) ++ [gsub linePattern [] str]

/-- `line:gsub("^%s*(.-)$","%1")`. -/
def trimLeft (line : Text) : Text :=
  match doMatch [.maxRepeat isSpace 0, .openCapture, .minRepeat isAny, .closeCapture, .atEnd] []
    line with
  | some ⟨capture :: _, rest⟩ => capture ++ rest
  | _ => line

/-- The classes of `%x%x:%x%x:%x%x:%x%x:%x%x:%x%x`, for a class of digits. -/
def macClasses (hex : Char → Bool) : List (Char → Bool) :=
  [hex, hex, (· == ':'), hex, hex, (· == ':'), hex, hex, (· == ':'), hex, hex, (· == ':'),
    hex, hex, (· == ':'), hex, hex]

/-- `^(%d+),(%x%x:%x%x:%x%x:%x%x:%x%x:%x%x)%s+(%d+x)%s+`, without the anchor. -/
def headPattern : List Item :=
  [.openCapture, .maxRepeat isDigit 1, .closeCapture, .single (· == ','), .openCapture] ++
    (macClasses isHex).map .single ++
    [.closeCapture, .maxRepeat isSpace 1, .openCapture, .maxRepeat isDigit 1, .single (· == 'x'),
      .closeCapture, .maxRepeat isSpace 1]

/-- `(%s0x%d+).*`. -/
def ssidPattern : List Item :=
  .openCapture :: .single isSpace :: (lit ['0', 'x'] ++
    [.maxRepeat isDigit 1, .closeCapture, .maxRepeat isAny 0])

/-- `0x%d+` with a space behind it, in front of the rest of a pattern. -/
def hexPattern (pat : List Item) : List Item :=
  lit ['0', 'x'] ++ .maxRepeat isDigit 1 :: .single (· == ' ') :: pat

/-- `0x%d+ 0x%d+`. -/
def securityPattern : List Item := hexPattern (lit ['0', 'x'] ++ [.maxRepeat isDigit 1])

/-- `0x%d+ %S.*`. -/
def newPattern : List Item := hexPattern [.single isNonspace, .maxRepeat isAny 0]

/-- `0x%d+ 0x%d+%s`. -/
def updatePattern : List Item :=
  hexPattern (lit ['0', 'x'] ++ [.maxRepeat isDigit 1, .single isSpace])

/-- `%d %d %S+ %d+ %S+ %S+`. -/
def restPattern : List Item :=
  [.single isDigit, .single (· == ' '), .single isDigit, .single (· == ' '),
    .maxRepeat isNonspace 1, .single (· == ' '), .maxRepeat isDigit 1, .single (· == ' '),
    .maxRepeat isNonspace 1, .single (· == ' '), .maxRepeat isNonspace 1]

/-- `%s%d %d %S+ %d+ %S+ %S+`. -/
def passPattern : List Item := .single isSpace :: restPattern

/-- `(%S+)%s?`. -/
def tokenPattern : List Item :=
  [.openCapture, .maxRepeat isNonspace 1, .closeCapture, .optional isSpace]

/-- `string.match` of a pattern without captures. -/
def matchText (pat : List Item) (s : Text) : Option Text := (find pat s).map (·.text s)

/-- The fields of a line behind the band.  The outer `none` is an error, the inner
one a line that is skipped. -/
def parseBss (bssLineStr : Text) : Option (Option BssInfo) := do
  let security ← matchText securityPattern bssLineStr
  let newBssLineStr ← matchText newPattern bssLineStr
  let updateBssLineStr := gsub updatePattern [] newBssLineStr
  let restBssLineStr ← matchText restPattern updateBssLineStr
  match (gmatch tokenPattern restBssLineStr).map (fun captures => captures.headD []) with
  | [bh, fh, hidden, fhVlanId, primVlan, defPCP] =>
      some (some ⟨gsub ssidPattern [] bssLineStr, security.take 6, (security.drop 7).take 6,
        gsub passPattern [] updateBssLineStr, bh, fh, hidden, fhVlanId, primVlan, defPCP⟩)
  | _ => some none

def wildCardAlMac : Text := "FF:FF:FF:FF:FF:FF".toList

/-- The tables while the file is read.  `wildCard` and `distinct` are the AL-MACs
whose table in `tmp` is also stored in the result. -/
structure Loading where
  tmp : Text → Text → List BssInfo
  wildCard : List Text
  distinct : List Text

def Loading.empty : Loading := ⟨fun _ _ => [], [], []⟩

def Loading.add (l : Loading) (alMac band : Text) (info : BssInfo) : Loading where
  tmp := Function.update l.tmp alMac
    (Function.update (l.tmp alMac) band (l.tmp alMac band ++ [info]))
  wildCard := if alMac = wildCardAlMac then alMac :: l.wildCard else l.wildCard
  distinct := if alMac = wildCardAlMac then l.distinct else alMac :: l.distinct

def Loading.store (l : Loading) (alMac band : Text) : Option BssInfo → Loading
  | some info => l.add alMac band info
  | none => l

def loadLine (l : Loading) (line : Text) : Option Loading :=
  let line := trimLeft line
  if line.head? = some '#' then some l
  else
    match doMatch headPattern [] line with
    | some ⟨[_, alMac, band], bssLineStr⟩ =>
        (parseBss bssLineStr).map (l.store (alMac.map Char.toUpper) band)
    | _ => some l

def loadEasymeshBssCfgs (content : Text) : Option Loading :=
  (lines content).foldlM loadLine Loading.empty

def Loading.wildCardCfgs (l : Loading) (alMac band : Text) : List BssInfo :=
  if alMac ∈ l.wildCard then l.tmp alMac band else []

def Loading.distinctCfgs (l : Loading) (alMac band : Text) : List BssInfo :=
  if alMac ∈ l.distinct then l.tmp alMac band else []

/-! ## Entries -/

/-- What the controller stores for an SSID or a pass phrase: backslashes are doubled
and white space becomes a backslash and a space. -/
def escape (text : Text) : Text :=
  gsub [.maxRepeat isSpace 1] ['\\', ' '] (gsub (lit ['\\']) ['\\', '\\'] text)

def isPrintable (c : Char) : Bool := ' ' ≤ c ∧ c ≤ '~'

def isUpperHex (c : Char) : Bool := isDigit c ∨ ('A' ≤ c ∧ c ≤ 'F')

def IsOneLine (text : Text) : Prop := '\n' ∉ text ∧ '\r' ∉ text

def IsCode (text : Text) : Prop :=
  ∃ digits, digits.length = 4 ∧ (∀ c ∈ digits, isDigit c = true) ∧ text = '0' :: 'x' :: digits

structure IsBss (bss : Bss) : Prop where
  alMac : List.Forall₂ (fun p c => p c = true) (macClasses isUpperHex) bss.alMac
  band : ∃ digits, digits ≠ [] ∧ (∀ c ∈ digits, isDigit c = true) ∧ bss.band = digits ++ ['x']
  ssid : ∃ raw, 1 ≤ raw.length ∧ raw.length ≤ 32 ∧ (∀ c ∈ raw, isPrintable c = true) ∧
    bss.info.ssid = escape raw
  authMode : IsCode bss.info.authMode
  encType : IsCode bss.info.encType
  passPhrase : ∃ raw, 8 ≤ raw.length ∧ raw.length ≤ 63 ∧ (∀ c ∈ raw, isPrintable c = true) ∧
    bss.info.passPhrase = escape raw
  isBhBssSupported : bss.info.isBhBssSupported = ['0'] ∨ bss.info.isBhBssSupported = ['1']
  isFhBssSupported : bss.info.isFhBssSupported = ['0'] ∨ bss.info.isFhBssSupported = ['1']
  isHidden : bss.info.isHidden = "hidden-Y".toList ∨ bss.info.isHidden = "hidden-N".toList
  fhVlanId : IsOneLine bss.info.fhVlanId
  defPCP : (bss.info.primVlan = "pvid".toList ∧ bss.info.defPCP.length ≤ 1 ∧
      IsOneLine bss.info.defPCP) ∨
    (bss.info.primVlan = "N/A".toList ∧ bss.info.defPCP = "N/A".toList)

end Nwa50ax.Wifi.EasyMesh
