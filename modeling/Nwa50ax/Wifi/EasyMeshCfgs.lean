import Nwa50ax.Wifi.EasyMeshLine

/-!
# Saving and loading the EasyMesh BSS configuration

The file has one line per entry, and the loader puts what it reads from a line under
the AL-MAC and the band of the line.  So the round trip gives back what was saved
exactly when the loader understands every entry.
-/

namespace Nwa50ax.Wifi.EasyMesh

open LuaPattern

/-! ## The lines of the file -/

section Lines

variable {line rest : Text}

theorem linePattern_match (hline : IsOneLine line) :
    doMatch linePattern [] (line ++ '\n' :: rest) = some ⟨[line], rest⟩ := by
  rw [linePattern, doMatch_openCapture]
  apply doMatch_minRepeat_run (fun _ _ => rfl)
  · intro u v huv hv
    obtain ⟨c, v, rfl⟩ := List.exists_cons_of_ne_nil hv
    have hmem : c ∈ line := by
      rw [huv]
      simp
    have hreturn : (c == '\r') = false := by
      rw [beq_eq_false_iff_ne]
      rintro rfl
      exact hline.2 hmem
    have hnewline : (c == '\n') = false := by
      rw [beq_eq_false_iff_ne]
      rintro rfl
      exact hline.1 hmem
    have hnone : doMatch [.optional (· == '\r'), .single (· == '\n')] (line ++ '\n' :: rest)
        (c :: (v ++ '\n' :: rest)) = none := by
      rw [doMatch_optional_skip (by simpa using hreturn), doMatch, if_neg (by rw [hnewline]; decide)]
    rw [List.cons_append, doMatch, hnone]
    rfl
  · rw [doMatch_closeCapture, doMatch_optional_skip (by simp)]
    rfl

theorem gmatch_line (hline : IsOneLine line) (rest : Text) :
    gmatch linePattern (line ++ '\n' :: rest) = [line] :: gmatch linePattern rest := by
  have hgmatch : gmatch linePattern ((line ++ ['\n']) ++ rest) = _ :=
    gmatch_match (by simp) (by simpa using linePattern_match hline)
  simpa using hgmatch

theorem gsub_line (hline : IsOneLine line) (rest : Text) :
    gsub linePattern [] (line ++ '\n' :: rest) = gsub linePattern [] rest := by
  have hgsub : gsub linePattern [] ((line ++ ['\n']) ++ rest) = _ :=
    gsub_match (by simp) (by simpa using linePattern_match hline)
  simpa using hgsub

theorem lines_flatMap {written : List Text} (h : ∀ line ∈ written, IsOneLine line) :
    lines (written.flatMap fun line => line ++ ['\n']) = written ++ [[]] := by
  induction written with
  | nil => rfl
  | cons line written ih =>
      have hline := h line List.mem_cons_self
      have hrest := ih fun line' hline' => h line' (List.mem_cons_of_mem line hline')
      unfold lines at hrest ⊢
      rw [List.flatMap_cons, List.append_assoc, List.singleton_append, gmatch_line hline,
        gsub_line hline, List.map_cons, List.cons_append, hrest]
      rfl

end Lines

/-! ## The head of a line -/

section Head

theorem trimLeft_eq {s : Text} (h : ∀ c, s.head? = some c → isSpace c = false) :
    trimLeft s = s := by
  have hend : doMatch [.closeCapture, .atEnd] s [] = some ⟨[s], []⟩ := by
    rw [doMatch, doMatch_atEnd, doMatch_nil, List.length_nil, Nat.sub_zero, List.take_length]
    rfl
  have hcapture : doMatch [.minRepeat isAny, .closeCapture, .atEnd] s (s ++ []) =
      some ⟨[s], []⟩ := by
    apply doMatch_minRepeat_run (fun _ _ => rfl) _ hend
    intro u v _ hv
    obtain ⟨c, v, rfl⟩ := List.exists_cons_of_ne_nil hv
    rw [List.cons_append, doMatch, doMatch_atEnd_cons]
    rfl
  rw [List.append_nil] at hcapture
  have hmatch : doMatch [.maxRepeat isSpace 0, .openCapture, .minRepeat isAny, .closeCapture, .atEnd]
      [] ([] ++ s) = some ⟨[s], []⟩ :=
    doMatch_maxRepeat_run (by simp) h (Nat.zero_le _) (by rw [doMatch_openCapture]; exact hcapture)
  rw [List.nil_append] at hmatch
  unfold trimLeft
  rw [hmatch]
  exact List.append_nil s

theorem isHex_of_isUpperHex {c : Char} (h : isUpperHex c = true) : isHex c = true := by
  simp only [isUpperHex, decide_eq_true_eq] at h
  simp only [isHex, decide_eq_true_eq]
  rcases h with h | h
  · exact Or.inl h
  · exact Or.inr (Or.inr h)

def macDigits : List Bool :=
  [true, true, false, true, true, false, true, true, false, true, true, false, true, true, false,
    true, true]

theorem macClasses_eq (hex : Char → Bool) :
    macClasses hex = macDigits.map fun digit => if digit then hex else (· == ':') := rfl

theorem isHexMac {alMac : Text}
    (h : List.Forall₂ (fun p c => p c = true) (macClasses isUpperHex) alMac) :
    List.Forall₂ (fun p c => p c = true) (macClasses isHex) alMac := by
  rw [macClasses_eq, List.forall₂_map_left_iff] at h ⊢
  refine h.imp fun digit c hc => ?_
  cases digit with
  | true => exact isHex_of_isUpperHex hc
  | false => exact hc

theorem toUpper_of_isUpperHex {c : Char} (h : isUpperHex c = true) : c.toUpper = c := by
  simp only [isUpperHex, isDigit, decide_eq_true_eq] at h
  have hle : c.val ≤ 'F'.val := by
    rcases h with h | h
    · exact UInt32.le_trans h.2 (by decide)
    · exact h.2
  unfold Char.toUpper
  rw [dif_neg]
  rintro ⟨hlow, -⟩
  exact absurd (UInt32.le_trans hlow hle) (by decide)

theorem isSpace_of_isUpperHex {c : Char} (h : isUpperHex c = true) : isSpace c = false := by
  simp only [isUpperHex, decide_eq_true_eq] at h
  rcases h with h | h
  · exact isSpace_of_isDigit h
  · by_contra hspace
    simp only [isSpace, Bool.not_eq_false, decide_eq_true_eq] at hspace
    rcases hspace with rfl | rfl | rfl | rfl | rfl | rfl <;> exact absurd h (by decide)

theorem mem_alMac {alMac : Text}
    (h : List.Forall₂ (fun p c => p c = true) (macClasses isUpperHex) alMac) :
    ∀ c ∈ alMac, isUpperHex c = true ∨ c = ':' := by
  rw [macClasses_eq, List.forall₂_map_left_iff] at h
  generalize macDigits = digits at h
  induction h with
  | nil => simp
  | @cons digit c digits alMac hc _ ih =>
      intro c' hc'
      rcases List.mem_cons.mp hc' with rfl | hc'
      · cases digit with
        | true => exact Or.inl hc
        | false => exact Or.inr (beq_iff_eq.mp hc)
      · exact ih c' hc'

theorem toUpper_alMac {alMac : Text}
    (h : List.Forall₂ (fun p c => p c = true) (macClasses isUpperHex) alMac) :
    alMac.map Char.toUpper = alMac := by
  conv_rhs => rw [← List.map_id alMac]
  apply List.map_congr_left
  intro c hc
  rcases mem_alMac h c hc with hupper | rfl
  · exact toUpper_of_isUpperHex hupper
  · rfl

theorem isDigit_of_mem_toString {n : ℕ} {c : Char} (h : c ∈ (toString n).toList) :
    isDigit c = true := by
  rw [Nat.toString_eq_repr, Nat.toList_repr] at h
  have hdigit := Nat.isDigit_of_mem_toDigits (by decide) (by decide) h
  simp only [Char.isDigit, Bool.and_eq_true, decide_eq_true_eq] at hdigit
  simp only [isDigit, decide_eq_true_eq]
  exact hdigit

theorem toString_ne_nil (n : ℕ) : (toString n).toList ≠ [] := by
  rw [Nat.toString_eq_repr, Nat.toList_repr]
  exact Nat.toDigits_ne_nil

theorem IsEscaped.head_nonspace {t : Text} (h : IsEscaped t) {c : Char} (hc : t.head? = some c) :
    isSpace c = false := by
  by_contra hspace
  have hsame := h.space c (List.mem_of_head? hc) (Bool.not_eq_false _ |>.mp hspace)
  exact h.head (hsame ▸ hc)

theorem bssFields_head {info : BssInfo} (h : IsStored info) (c : Char)
    (hc : (bssFields info).head? = some c) : isSpace c = false := by
  rw [bssFields, List.head?_append_of_ne_nil _ h.ssid_ne] at hc
  exact h.ssid.head_nonspace hc

theorem doMatch_one_space {pat : List Item} {start s : Text} {m : Match}
    (hs : ∀ c, s.head? = some c → isSpace c = false) (h : doMatch pat start s = some m) :
    doMatch (.maxRepeat isSpace 1 :: pat) start (' ' :: s) = some m := by
  have hrun : ∀ c ∈ [' '], isSpace c = true := List.all_eq_true.mp (by decide)
  exact doMatch_maxRepeat_run hrun hs le_rfl h

theorem bandPattern_match {band fields : Text}
    (hband : ∃ digits, digits ≠ [] ∧ (∀ c ∈ digits, isDigit c = true) ∧ band = digits ++ ['x'])
    (hfields : ∀ c, fields.head? = some c → isSpace c = false) (start : Text) :
    doMatch [.openCapture, .maxRepeat isDigit 1, .single (· == 'x'), .closeCapture,
      .maxRepeat isSpace 1] start (band ++ ' ' :: fields) = some ⟨[band], fields⟩ := by
  obtain ⟨digits, hne, hdigits, rfl⟩ := hband
  have hclose : doMatch [.closeCapture, .maxRepeat isSpace 1] ((digits ++ ['x']) ++ ' ' :: fields)
      (' ' :: fields) = some ⟨[digits ++ ['x']], fields⟩ := by
    rw [doMatch_closeCapture, doMatch_one_space hfields (doMatch_nil _ _)]
    rfl
  rw [doMatch_openCapture]
  have hrun : doMatch [.maxRepeat isDigit 1, .single (· == 'x'), .closeCapture,
      .maxRepeat isSpace 1] ((digits ++ ['x']) ++ ' ' :: fields) (digits ++ 'x' :: ' ' :: fields) =
      some ⟨[digits ++ ['x']], fields⟩ := by
    apply doMatch_maxRepeat_run hdigits _ (List.length_pos_iff.mpr hne)
    · rwa [doMatch_single_cons (p := (· == 'x')) rfl]
    · intro c hc
      obtain rfl := Option.some.inj hc
      decide
  simpa using hrun

theorem headPattern_match {bss : Bss} (h : IsBss bss) (lineIdx : ℕ) :
    doMatch headPattern [] (bssLine lineIdx bss) =
      some ⟨[(toString lineIdx).toList, bss.alMac, bss.band], bssFields bss.info⟩ := by
  have hbandHead : ∀ c, (bss.band ++ ' ' :: bssFields bss.info).head? = some c →
      isSpace c = false := by
    obtain ⟨digits, hne, hdigits, hband⟩ := h.band
    intro c hc
    rw [hband, List.append_assoc, List.head?_append_of_ne_nil _ hne] at hc
    exact isSpace_of_isDigit (hdigits c (List.mem_of_head? hc))
  have hmac : doMatch ((macClasses isHex).map .single ++ [.closeCapture, .maxRepeat isSpace 1,
      .openCapture, .maxRepeat isDigit 1, .single (· == 'x'), .closeCapture, .maxRepeat isSpace 1])
      (bss.alMac ++ ' ' :: (bss.band ++ ' ' :: bssFields bss.info))
      (bss.alMac ++ ' ' :: (bss.band ++ ' ' :: bssFields bss.info)) =
      some ⟨[bss.alMac, bss.band], bssFields bss.info⟩ := by
    rw [doMatch_singles (isHexMac h.alMac), doMatch_closeCapture,
      doMatch_one_space hbandHead (bandPattern_match h.band (bssFields_head h.stored) _)]
    rfl
  rw [headPattern, bssLine, List.append_assoc, List.cons_append, doMatch_openCapture]
  apply doMatch_maxRepeat_run (fun c hc => isDigit_of_mem_toString hc) _
    (List.length_pos_iff.mpr (toString_ne_nil lineIdx))
  · have hrest : doMatch (.closeCapture :: .single (· == ',') :: .openCapture ::
        ((macClasses isHex).map .single ++ [.closeCapture, .maxRepeat isSpace 1, .openCapture,
          .maxRepeat isDigit 1, .single (· == 'x'), .closeCapture, .maxRepeat isSpace 1]))
        ((toString lineIdx).toList ++
          ',' :: (bss.alMac ++ ' ' :: (bss.band ++ ' ' :: bssFields bss.info)))
        (',' :: (bss.alMac ++ ' ' :: (bss.band ++ ' ' :: bssFields bss.info))) =
        some ⟨[(toString lineIdx).toList, bss.alMac, bss.band], bssFields bss.info⟩ := by
      rw [doMatch_closeCapture, doMatch_single_cons (p := (· == ',')) rfl, doMatch_openCapture, hmac]
      rfl
    exact hrest
  · intro c hc
    obtain rfl := Option.some.inj hc
    decide

end Head

/-! ## Reading a line -/

section Read

variable {bss : Bss}

theorem loadLine_bssLine (h : IsBss bss) (lineIdx : ℕ) (l : Loading) :
    loadLine l (bssLine lineIdx bss) =
      (parseBss (bssFields bss.info)).map (l.store bss.alMac bss.band) := by
  have hhead : ∀ c, (bssLine lineIdx bss).head? = some c → isDigit c = true := by
    intro c hc
    rw [bssLine, List.head?_append_of_ne_nil _ (toString_ne_nil lineIdx)] at hc
    exact isDigit_of_mem_toString (List.mem_of_head? hc)
  have hcomment : (bssLine lineIdx bss).head? ≠ some '#' := by
    intro hc
    exact absurd (hhead '#' hc) (by decide)
  unfold loadLine
  dsimp only
  rw [trimLeft_eq fun c hc => isSpace_of_isDigit (hhead c hc), if_neg hcomment,
    headPattern_match h lineIdx]
  dsimp only
  rw [toUpper_alMac h.alMac]

theorem IsOneLine.space {t t' : Text} (h : IsOneLine t) (h' : IsOneLine t') :
    IsOneLine (t ++ ' ' :: t') := by
  constructor
  · simp [h.1, h'.1]
  · simp [h.2, h'.2]

theorem isOneLine_of_nonspace {t : Text} (h : ∀ c ∈ t, isSpace c = false) : IsOneLine t := by
  constructor
  · intro hmem
    exact absurd (h _ hmem) (by decide)
  · intro hmem
    exact absurd (h _ hmem) (by decide)

theorem IsEscaped.isOneLine {t : Text} (h : IsEscaped t) : IsOneLine t := by
  constructor
  · intro hmem
    exact absurd (h.space _ hmem (by decide)) (by decide)
  · intro hmem
    exact absurd (h.space _ hmem (by decide)) (by decide)

theorem isOneLine_restFields (h : IsBss bss) : IsOneLine (restFields bss.info) := by
  have hflag : ∀ t : Text, t = ['0'] ∨ t = ['1'] → IsOneLine t := by
    rintro t (rfl | rfl) <;> exact ⟨by decide, by decide⟩
  have hhidden : IsOneLine bss.info.isHidden := by
    rcases h.isHidden with hhidden | hhidden <;> rw [hhidden] <;> exact ⟨by decide, by decide⟩
  have hprim : IsOneLine bss.info.primVlan ∧ IsOneLine bss.info.defPCP := by
    rcases h.defPCP with ⟨hprim, -, hpcp⟩ | ⟨hprim, hpcp⟩
    · rw [hprim]
      exact ⟨⟨by decide, by decide⟩, hpcp⟩
    · rw [hprim, hpcp]
      exact ⟨⟨by decide, by decide⟩, by decide, by decide⟩
  exact (hflag _ h.isBhBssSupported).space ((hflag _ h.isFhBssSupported).space
    (hhidden.space (h.fhVlanId.space (hprim.1.space hprim.2))))

theorem isOneLine_bssLine (h : IsBss bss) (lineIdx : ℕ) : IsOneLine (bssLine lineIdx bss) := by
  have hstored := h.stored
  have hidx : ∀ c ∈ (toString lineIdx).toList ++ [','], isSpace c = false := by
    intro c hc
    rcases List.mem_append.mp hc with hc | hc
    · exact isSpace_of_isDigit (isDigit_of_mem_toString hc)
    · obtain rfl := List.mem_singleton.mp hc
      decide
  have hband : ∀ c ∈ bss.band, isSpace c = false := by
    obtain ⟨digits, -, hdigits, hband⟩ := h.band
    intro c hc
    rw [hband] at hc
    rcases List.mem_append.mp hc with hc | hc
    · exact isSpace_of_isDigit (hdigits c hc)
    · obtain rfl := List.mem_singleton.mp hc
      decide
  have hmac : ∀ c ∈ bss.alMac, isSpace c = false := by
    intro c hc
    rcases mem_alMac h.alMac c hc with hupper | rfl
    · exact isSpace_of_isUpperHex hupper
    · decide
  have hhead : ∀ c ∈ ((toString lineIdx).toList ++ [',']) ++ bss.alMac, isSpace c = false := by
    intro c hc
    rcases List.mem_append.mp hc with hc | hc
    · exact hidx c hc
    · exact hmac c hc
  have hline := (isOneLine_of_nonspace hhead).space ((isOneLine_of_nonspace hband).space
    (hstored.ssid.isOneLine.space ((isOneLine_of_nonspace hstored.authMode.isHexText.no_space).space
      ((isOneLine_of_nonspace hstored.encType.isHexText.no_space).space
        (hstored.passPhrase.isOneLine.space (isOneLine_restFields h))))))
  simpa [bssLine, bssFields] using hline

end Read

/-! ## The whole file -/

section File

variable {bs : List Bss}

def Loading.addAll (l : Loading) (bs : List Bss) : Loading :=
  bs.foldl (fun l bss => l.add bss.alMac bss.band bss.info) l

def lookup (bs : List Bss) (alMac band : Text) : List BssInfo :=
  (bs.filter fun bss => bss.alMac = alMac ∧ bss.band = band).map Bss.info

theorem addAll_tmp (l : Loading) (bs : List Bss) (alMac band : Text) :
    (l.addAll bs).tmp alMac band = l.tmp alMac band ++ lookup bs alMac band := by
  induction bs generalizing l with
  | nil => exact (List.append_nil _).symm
  | cons bss bs ih =>
      have hadd : (l.add bss.alMac bss.band bss.info).tmp alMac band = l.tmp alMac band ++
          (if bss.alMac = alMac ∧ bss.band = band then [bss.info] else []) := by
        unfold Loading.add
        dsimp only
        by_cases hmac : bss.alMac = alMac
        · subst hmac
          rw [Function.update_self]
          by_cases hband : bss.band = band
          · subst hband
            rw [Function.update_self, if_pos ⟨rfl, rfl⟩]
          · rw [Function.update_of_ne (Ne.symm hband), if_neg (fun h => hband h.2), List.append_nil]
        · rw [Function.update_of_ne (Ne.symm hmac), if_neg (fun h => hmac h.1), List.append_nil]
      unfold Loading.addAll at ih ⊢
      rw [List.foldl_cons, ih, hadd, List.append_assoc]
      congr 1
      unfold lookup
      by_cases hkey : bss.alMac = alMac ∧ bss.band = band
      · rw [if_pos hkey, List.filter_cons_of_pos (by simpa using hkey), List.map_cons]
        rfl
      · rw [if_neg hkey, List.filter_cons_of_neg (by simpa using hkey), List.nil_append]

theorem addAll_distinct (l : Loading) (bs : List Bss) :
    (l.addAll bs).distinct =
      ((bs.filter (·.alMac ≠ wildCardAlMac)).map Bss.alMac).reverse ++ l.distinct := by
  induction bs generalizing l with
  | nil => rfl
  | cons bss bs ih =>
      unfold Loading.addAll at ih ⊢
      rw [List.foldl_cons, ih, Loading.add]
      by_cases hwild : bss.alMac = wildCardAlMac <;> simp [hwild]

theorem addAll_wildCard (l : Loading) (bs : List Bss) :
    (l.addAll bs).wildCard =
      ((bs.filter (·.alMac = wildCardAlMac)).map Bss.alMac).reverse ++ l.wildCard := by
  induction bs generalizing l with
  | nil => rfl
  | cons bss bs ih =>
      unfold Loading.addAll at ih ⊢
      rw [List.foldl_cons, ih, Loading.add]
      by_cases hwild : bss.alMac = wildCardAlMac <;> simp [hwild]

theorem lookup_eq_nil {alMac : Text} (h : ∀ bss ∈ bs, bss.alMac ≠ alMac) (band : Text) :
    lookup bs alMac band = [] := by
  unfold lookup
  rw [List.map_eq_nil_iff, List.filter_eq_nil_iff]
  intro bss hbss
  simp [h bss hbss]

theorem distinctCfgs_addAll (bs : List Bss) (alMac band : Text) :
    (Loading.empty.addAll bs).distinctCfgs alMac band =
      if alMac = wildCardAlMac then [] else lookup bs alMac band := by
  have hmem : alMac ∈ (Loading.empty.addAll bs).distinct ↔
      alMac ≠ wildCardAlMac ∧ ∃ bss ∈ bs, bss.alMac = alMac := by
    rw [addAll_distinct]
    simp only [Loading.empty, List.append_nil, List.mem_reverse, List.mem_map, List.mem_filter,
      decide_eq_true_eq]
    constructor
    · rintro ⟨bss, ⟨hbss, hne⟩, rfl⟩
      exact ⟨hne, bss, hbss, rfl⟩
    · rintro ⟨hne, bss, hbss, rfl⟩
      exact ⟨bss, ⟨hbss, hne⟩, rfl⟩
  have htmp : (Loading.empty.addAll bs).tmp alMac band = lookup bs alMac band :=
    addAll_tmp Loading.empty bs alMac band
  unfold Loading.distinctCfgs
  rw [htmp]
  by_cases hwild : alMac = wildCardAlMac
  · rw [if_neg (fun h => (hmem.mp h).1 hwild), if_pos hwild]
  · rw [if_neg hwild]
    split
    case isTrue => rfl
    case isFalse hnot =>
        rw [lookup_eq_nil]
        intro bss hbss hmac
        exact hnot (hmem.mpr ⟨hwild, bss, hbss, hmac⟩)

theorem wildCardCfgs_addAll (bs : List Bss) (alMac band : Text) :
    (Loading.empty.addAll bs).wildCardCfgs alMac band =
      if alMac = wildCardAlMac then lookup bs alMac band else [] := by
  have hmem : alMac ∈ (Loading.empty.addAll bs).wildCard ↔
      alMac = wildCardAlMac ∧ ∃ bss ∈ bs, bss.alMac = alMac := by
    rw [addAll_wildCard]
    simp only [Loading.empty, List.append_nil, List.mem_reverse, List.mem_map, List.mem_filter,
      decide_eq_true_eq]
    constructor
    · rintro ⟨bss, ⟨hbss, hwild⟩, rfl⟩
      exact ⟨hwild, bss, hbss, rfl⟩
    · rintro ⟨hwild, bss, hbss, rfl⟩
      exact ⟨bss, ⟨hbss, hwild⟩, rfl⟩
  have htmp : (Loading.empty.addAll bs).tmp alMac band = lookup bs alMac band :=
    addAll_tmp Loading.empty bs alMac band
  unfold Loading.wildCardCfgs
  rw [htmp]
  by_cases hwild : alMac = wildCardAlMac
  · rw [if_pos hwild]
    split
    case isTrue => rfl
    case isFalse hnot =>
        rw [lookup_eq_nil]
        intro bss hbss hmac
        exact hnot (hmem.mpr ⟨hwild, bss, hbss, hmac⟩)
  · rw [if_neg (fun h => hwild (hmem.mp h).1), if_neg hwild]

theorem loadLine_nil (l : Loading) : loadLine l [] = some l := rfl

theorem foldlM_plain (hbs : ∀ bss ∈ bs, IsBss bss ∧ Plain bss.info) (lineIdx : ℕ) (l : Loading) :
    (bssLines lineIdx bs ++ [[]]).foldlM loadLine l = some (l.addAll bs) := by
  induction bs generalizing lineIdx l with
  | nil => exact loadLine_nil l
  | cons bss bs ih =>
      obtain ⟨hbss, hplain⟩ := hbs bss List.mem_cons_self
      rw [bssLines, List.cons_append, List.foldlM_cons, loadLine_bssLine hbss,
        parseBss_plain hbss.stored hplain]
      exact ih (fun bss' hbss' => hbs bss' (List.mem_cons_of_mem bss hbss')) _ _

def ReadAs (bss bss' : Bss) : Prop :=
  bss'.alMac = bss.alMac ∧ bss'.band = bss.band ∧
    parseBss (bssFields bss.info) = some (some bss'.info)

theorem foldlM_some (hbs : ∀ bss ∈ bs, IsBss bss) {lineIdx : ℕ} {l l' : Loading}
    (h : (bssLines lineIdx bs ++ [[]]).foldlM loadLine l = some l') :
    ∃ bs', List.Forall₂ ReadAs bs bs' ∧ l' = l.addAll bs' := by
  induction bs generalizing lineIdx l with
  | nil =>
      obtain rfl := Option.some.inj h
      exact ⟨[], List.Forall₂.nil, rfl⟩
  | cons bss bs ih =>
      have hbss := hbs bss List.mem_cons_self
      rw [bssLines, List.cons_append, List.foldlM_cons, loadLine_bssLine hbss,
        Option.bind_eq_bind, Option.bind_eq_some_iff] at h
      obtain ⟨l1, hl1, hrest⟩ := h
      obtain ⟨r, hr, rfl⟩ := Option.map_eq_some_iff.mp hl1
      obtain ⟨info', rfl, -⟩ := plain_of_parseBss hbss.stored hr
      obtain ⟨bs', hread, rfl⟩ := ih (fun bss' hbss' => hbs bss' (List.mem_cons_of_mem bss hbss'))
        hrest
      exact ⟨⟨bss.alMac, bss.band, info'⟩ :: bs', List.Forall₂.cons ⟨rfl, rfl, hr⟩ hread, rfl⟩

end File

/-! ## The round trip -/

/-- Loading what was saved gives back the entries under every AL-MAC and band, in
some order. -/
def RoundTrip (cfgs : Cfgs) : Prop :=
  ∃ l, loadEasymeshBssCfgs (saveEasymeshBssCfgs cfgs) = some l ∧ ∀ alMac band,
    (l.distinctCfgs alMac band).Perm (lookup (entries cfgs.distinctAlMacCfgs) alMac band) ∧
      (l.wildCardCfgs alMac band).Perm (lookup (entries cfgs.wildCardAlMacCfgs) alMac band)

/-- The entries come from the form, and the wild card table has the entries of the
wild card AL-MAC. -/
structure IsCfgs (cfgs : Cfgs) : Prop where
  distinct : ∀ bss ∈ entries cfgs.distinctAlMacCfgs, IsBss bss ∧ bss.alMac ≠ wildCardAlMac
  wildCard : ∀ bss ∈ entries cfgs.wildCardAlMacCfgs, IsBss bss ∧ bss.alMac = wildCardAlMac

section RoundTrips

variable {cfgs : Cfgs}

theorem IsCfgs.bss (h : IsCfgs cfgs) {bss : Bss}
    (hbss : bss ∈ entries cfgs.distinctAlMacCfgs ++ entries cfgs.wildCardAlMacCfgs) : IsBss bss := by
  rcases List.mem_append.mp hbss with hbss | hbss
  · exact (h.distinct bss hbss).1
  · exact (h.wildCard bss hbss).1

theorem isOneLine_bssLines {bs : List Bss} (h : ∀ bss ∈ bs, IsBss bss) (lineIdx : ℕ) :
    ∀ line ∈ bssLines lineIdx bs, IsOneLine line := by
  induction bs generalizing lineIdx with
  | nil => simp [bssLines]
  | cons bss bs ih =>
      intro line hline
      rw [bssLines, List.mem_cons] at hline
      rcases hline with rfl | hline
      · exact isOneLine_bssLine (h bss List.mem_cons_self) lineIdx
      · exact ih (fun bss' hbss' => h bss' (List.mem_cons_of_mem bss hbss')) _ line hline

theorem load_save (h : IsCfgs cfgs) :
    loadEasymeshBssCfgs (saveEasymeshBssCfgs cfgs) =
      (bssLines 1 (entries cfgs.distinctAlMacCfgs ++ entries cfgs.wildCardAlMacCfgs) ++
        [[]]).foldlM loadLine Loading.empty := by
  unfold loadEasymeshBssCfgs saveEasymeshBssCfgs
  rw [lines_flatMap (isOneLine_bssLines (fun bss hbss => h.bss hbss) 1)]

theorem lookup_append (bs bs' : List Bss) (alMac band : Text) :
    lookup (bs ++ bs') alMac band = lookup bs alMac band ++ lookup bs' alMac band := by
  unfold lookup
  rw [List.filter_append, List.map_append]

theorem mem_lookup {bs : List Bss} {bss : Bss} (h : bss ∈ bs) :
    bss.info ∈ lookup bs bss.alMac bss.band :=
  List.mem_map_of_mem (List.mem_filter.mpr ⟨h, by simp⟩)

theorem lookup_distinct (h : IsCfgs cfgs) (alMac band : Text) :
    (if alMac = wildCardAlMac then [] else
      lookup (entries cfgs.distinctAlMacCfgs ++ entries cfgs.wildCardAlMacCfgs) alMac band) =
      lookup (entries cfgs.distinctAlMacCfgs) alMac band := by
  split
  case isTrue hwild =>
      rw [lookup_eq_nil]
      intro bss hbss hmac
      exact (h.distinct bss hbss).2 (hmac.trans hwild)
  case isFalse hwild =>
      have hnil : lookup (entries cfgs.wildCardAlMacCfgs) alMac band = [] := by
        apply lookup_eq_nil
        intro bss hbss hmac
        exact hwild (hmac.symm.trans (h.wildCard bss hbss).2)
      rw [lookup_append, hnil, List.append_nil]

theorem lookup_wildCard (h : IsCfgs cfgs) (alMac band : Text) :
    (if alMac = wildCardAlMac then
      lookup (entries cfgs.distinctAlMacCfgs ++ entries cfgs.wildCardAlMacCfgs) alMac band else []) =
      lookup (entries cfgs.wildCardAlMacCfgs) alMac band := by
  split
  case isTrue hwild =>
      have hnil : lookup (entries cfgs.distinctAlMacCfgs) alMac band = [] := by
        apply lookup_eq_nil
        intro bss hbss hmac
        exact (h.distinct bss hbss).2 (hmac.trans hwild)
      rw [lookup_append, hnil, List.nil_append]
  case isFalse hwild =>
      rw [lookup_eq_nil]
      intro bss hbss hmac
      exact hwild (hmac.symm.trans (h.wildCard bss hbss).2)

theorem exists_readAs {bs bs' : List Bss} (hread : List.Forall₂ ReadAs bs bs') {info : BssInfo}
    {alMac band : Text} (hinfo : info ∈ lookup bs' alMac band) :
    ∃ bss ∈ bs, parseBss (bssFields bss.info) = some (some info) := by
  obtain ⟨bss', hbss', rfl⟩ := List.mem_map.mp hinfo
  have hmem := (List.mem_filter.mp hbss').1
  clear hinfo hbss'
  induction hread with
  | nil => cases hmem
  | @cons bss bss'' bs bs' hfirst _ ih =>
      rcases List.mem_cons.mp hmem with rfl | hmem
      · exact ⟨bss, List.mem_cons_self, hfirst.2.2⟩
      · obtain ⟨bss, hbss, hparse⟩ := ih hmem
        exact ⟨bss, List.mem_cons_of_mem _ hbss, hparse⟩

/-- Saving and loading give back all entries exactly when the loader understands
every one of them. -/
theorem easymesh_round_trip_iff (h : IsCfgs cfgs) :
    RoundTrip cfgs ↔
      ∀ bss ∈ entries cfgs.distinctAlMacCfgs ++ entries cfgs.wildCardAlMacCfgs, Plain bss.info := by
  constructor
  · rintro ⟨l, hload, hperm⟩ bss hbss
    rw [load_save h] at hload
    obtain ⟨bs', hread, rfl⟩ := foldlM_some (fun bss hbss => h.bss hbss) hload
    have hfound : bss.info ∈ lookup bs' bss.alMac bss.band := by
      obtain ⟨hdistinct, hwildCard⟩ := hperm bss.alMac bss.band
      rw [distinctCfgs_addAll] at hdistinct
      rw [wildCardCfgs_addAll] at hwildCard
      rcases List.mem_append.mp hbss with hbss | hbss
      · rw [if_neg (h.distinct bss hbss).2] at hdistinct
        exact hdistinct.mem_iff.mpr (mem_lookup hbss)
      · rw [if_pos (h.wildCard bss hbss).2] at hwildCard
        exact hwildCard.mem_iff.mpr (mem_lookup hbss)
    -- What is found again is a stored entry, and it was read from some line.
    obtain ⟨bss', hbss', hparse⟩ := exists_readAs hread hfound
    obtain ⟨info', hinfo', hplain⟩ := plain_of_parseBss (h.bss hbss').stored hparse
    rw [← Option.some.inj hinfo'] at hplain
    exact hplain (h.bss hbss).stored.passPhrase
  · intro hplain
    refine ⟨_, (load_save h).trans (foldlM_plain (fun bss hbss => ⟨h.bss hbss, hplain bss hbss⟩) 1 _),
      fun alMac band => ?_⟩
    rw [distinctCfgs_addAll, wildCardCfgs_addAll, lookup_distinct h, lookup_wildCard h]
    exact ⟨List.Perm.refl _, List.Perm.refl _⟩

end RoundTrips

/-! ### A network with a given SSID -/

def sampleBss (ssid : String) : Bss where
  alMac := "02:0C:43:00:00:01".toList
  band := "8x".toList
  info :=
    { ssid := escape ssid.toList
      authMode := "0x0020".toList
      encType := "0x0008".toList
      passPhrase := escape "open sesame".toList
      isBhBssSupported := ['0']
      isFhBssSupported := ['1']
      isHidden := "hidden-N".toList
      fhVlanId := "4095".toList
      primVlan := "N/A".toList
      defPCP := "N/A".toList }

def sampleCfgs (ssid : String) : Cfgs where
  wildCardAlMacCfgs := []
  distinctAlMacCfgs := [((sampleBss ssid).alMac, [((sampleBss ssid).band, [(sampleBss ssid).info])])]

theorem isBss_sampleBss {ssid : String} (hpos : 1 ≤ ssid.toList.length)
    (hlength : ssid.toList.length ≤ 32) (hprintable : ∀ c ∈ ssid.toList, isPrintable c = true) :
    IsBss (sampleBss ssid) where
  alMac := by
    repeat' constructor
  band := ⟨['8'], by decide, List.all_eq_true.mp (by decide), rfl⟩
  ssid := ⟨ssid.toList, hpos, hlength, hprintable, rfl⟩
  authMode := ⟨"0020".toList, by decide, List.all_eq_true.mp (by decide), rfl⟩
  encType := ⟨"0008".toList, by decide, List.all_eq_true.mp (by decide), rfl⟩
  passPhrase := ⟨"open sesame".toList, by decide, by decide, List.all_eq_true.mp (by decide), rfl⟩
  isBhBssSupported := Or.inl rfl
  isFhBssSupported := Or.inr rfl
  isHidden := Or.inr rfl
  fhVlanId := by
    change '\n' ∉ "4095".toList ∧ '\r' ∉ "4095".toList
    decide
  defPCP := Or.inr ⟨rfl, rfl⟩

theorem isCfgs_sampleCfgs {ssid : String} (hpos : 1 ≤ ssid.toList.length)
    (hlength : ssid.toList.length ≤ 32) (hprintable : ∀ c ∈ ssid.toList, isPrintable c = true) :
    IsCfgs (sampleCfgs ssid) where
  distinct := by
    intro bss hbss
    obtain rfl : bss = sampleBss ssid := List.mem_singleton.mp hbss
    constructor
    · exact isBss_sampleBss hpos hlength hprintable
    · change "02:0C:43:00:00:01".toList ≠ wildCardAlMac
      decide
  wildCard := by
    intro bss hbss
    cases hbss

theorem easymesh_round_trip_home : RoundTrip (sampleCfgs "My Home") := by
  refine (easymesh_round_trip_iff (isCfgs_sampleCfgs (by decide) (by decide)
    (List.all_eq_true.mp (by decide)))).mpr ?_
  intro bss hbss
  obtain rfl : bss = sampleBss "My Home" := List.mem_singleton.mp hbss
  have hx : 'x' ∉ (sampleBss "My Home").info.ssid := by decide
  constructor
  · rintro ⟨u, c, d, v, -, -, h⟩
    simp [h] at hx
  · rintro ⟨u, d, -, -, h⟩
    simp [h] at hx
  · exact ⟨by decide, List.all_eq_true.mp (by decide)⟩
  · exact ⟨by decide, List.all_eq_true.mp (by decide)⟩

/-- An SSID with a word that starts like a security field is cut. -/
theorem easymesh_ssid_cut :
    IsCfgs (sampleCfgs "Room 0x1F") ∧
      (loadEasymeshBssCfgs (saveEasymeshBssCfgs (sampleCfgs "Room 0x1F"))).map (fun l =>
        (l.distinctCfgs "02:0C:43:00:00:01".toList "8x".toList).map BssInfo.ssid) =
          some ["Room\\".toList] ∧
      ¬RoundTrip (sampleCfgs "Room 0x1F") := by
  have hload : (loadEasymeshBssCfgs (saveEasymeshBssCfgs (sampleCfgs "Room 0x1F"))).map (fun l =>
      (l.distinctCfgs "02:0C:43:00:00:01".toList "8x".toList).map BssInfo.ssid) =
        some ["Room\\".toList] := by
    decide +kernel
  refine ⟨isCfgs_sampleCfgs (by decide) (by decide) (List.all_eq_true.mp (by decide)), hload, ?_⟩
  rintro ⟨l, hl, hperm⟩
  rw [hl, Option.map_some] at hload
  have hssid := (hperm "02:0C:43:00:00:01".toList "8x".toList).1.map BssInfo.ssid
  rw [Option.some.inj hload] at hssid
  exact absurd (List.singleton_perm.mp hssid) (by decide)

end Nwa50ax.Wifi.EasyMesh
