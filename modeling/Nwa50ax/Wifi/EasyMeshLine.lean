import Nwa50ax.Wifi.EasyMeshText

/-!
# One line of the EasyMesh BSS configuration file

The searches find the fields of a line where they were written, unless the SSID
looks like a security field or one of the last fields is not what the pattern asks
for.
-/

namespace Nwa50ax.Wifi.EasyMesh

open LuaPattern

/-! ## The fields of an entry -/

structure IsStored (info : BssInfo) : Prop where
  ssid : IsEscaped info.ssid
  ssid_ne : info.ssid ≠ []
  authMode : IsCode info.authMode
  encType : IsCode info.encType
  passPhrase : IsEscaped info.passPhrase
  passPhrase_length : 2 ≤ info.passPhrase.length
  isBhBssSupported : ∃ c, isDigit c = true ∧ info.isBhBssSupported = [c]
  isFhBssSupported : ∃ c, isDigit c = true ∧ info.isFhBssSupported = [c]
  isHidden : ∃ t, info.isHidden = 'h' :: t ∧ 'x' ∉ t ∧ ∀ c ∈ t, isNonspace c = true
  primVlan : info.primVlan ≠ [] ∧ 'x' ∉ info.primVlan ∧ ∀ c ∈ info.primVlan, isNonspace c = true
  defPCP : info.defPCP.length ≤ 1 ∨ 'x' ∉ info.defPCP

theorem IsBss.stored {bss : Bss} (h : IsBss bss) : IsStored bss.info := by
  obtain ⟨ssid, hssid, -, -, hssid'⟩ := h.ssid
  obtain ⟨pass, hpass, -, -, hpass'⟩ := h.passPhrase
  have hdigits : isDigit '0' = true ∧ isDigit '1' = true := by decide
  constructor
  · rw [hssid']
    exact isEscaped_escape ssid
  · rw [hssid']
    exact escape_ne_nil (List.ne_nil_of_length_pos hssid)
  · exact h.authMode
  · exact h.encType
  · rw [hpass']
    exact isEscaped_escape pass
  · rw [hpass']
    exact two_le_length_escape (by omega)
  · rcases h.isBhBssSupported with hbh | hbh
    · exact ⟨'0', hdigits.1, hbh⟩
    · exact ⟨'1', hdigits.2, hbh⟩
  · rcases h.isFhBssSupported with hfh | hfh
    · exact ⟨'0', hdigits.1, hfh⟩
    · exact ⟨'1', hdigits.2, hfh⟩
  · rcases h.isHidden with hhidden | hhidden
    · exact ⟨"idden-Y".toList, hhidden, by decide, List.all_eq_true.mp (by decide)⟩
    · exact ⟨"idden-N".toList, hhidden, by decide, List.all_eq_true.mp (by decide)⟩
  · rcases h.defPCP with ⟨hprim, -⟩ | ⟨hprim, -⟩ <;> rw [hprim]
    · exact ⟨by decide, by decide, List.all_eq_true.mp (by decide)⟩
    · exact ⟨by decide, by decide, List.all_eq_true.mp (by decide)⟩
  · rcases h.defPCP with ⟨-, hlength, -⟩ | ⟨-, hpcp⟩
    · exact Or.inl hlength
    · right
      rw [hpcp]
      decide

def HasMark (t : Text) : Prop :=
  ∃ u c d v, isSpace c = true ∧ isDigit d = true ∧ t = u ++ c :: '0' :: 'x' :: d :: v

def EndsInCode (t : Text) : Prop :=
  ∃ u d, d ≠ [] ∧ (∀ c ∈ d, isDigit c = true) ∧ t = u ++ '0' :: 'x' :: d

/-- The entries that the loader understands. -/
structure Plain (info : BssInfo) : Prop where
  mark : ¬HasMark info.ssid
  code : ¬EndsInCode info.ssid
  fhVlanId : info.fhVlanId ≠ [] ∧ ∀ c ∈ info.fhVlanId, isDigit c = true
  defPCP : info.defPCP ≠ [] ∧ ∀ c ∈ info.defPCP, isNonspace c = true

section Fields

variable {pat : List Item} {t u v s start : Text} {info : BssInfo}

/-! ### The SSID -/

theorem code_before_space {d : Char} {rest : Text} (hd : isDigit d = true)
    (h : v ++ ' ' :: s = '0' :: 'x' :: d :: rest) : ∃ v', v = '0' :: 'x' :: d :: v' := by
  rcases v with _ | ⟨a, _ | ⟨b, _ | ⟨e, v⟩⟩⟩ <;>
    simp only [List.nil_append, List.cons_append, List.cons.injEq] at h
  · exact absurd h.1 (by decide)
  · exact absurd h.2.1 (by decide)
  · rw [← h.2.2.1] at hd
    exact absurd hd (by decide)
  · obtain ⟨rfl, rfl, rfl, -⟩ := h
    exact ⟨v, rfl⟩

theorem noMatchIn_ssidPattern (ht : ¬HasMark t) : NoMatchIn ssidPattern t (' ' :: s) := by
  intro u v huv hv
  by_contra hmatch
  obtain ⟨m, hm⟩ := Option.ne_none_iff_exists'.mp hmatch
  obtain ⟨c, d, rest, hc, hd, hsplit⟩ := ssidPattern_some hm
  obtain ⟨c', v, rfl⟩ := List.exists_cons_of_ne_nil hv
  obtain ⟨v', rfl⟩ := code_before_space hd (List.cons.inj hsplit).2
  rw [← (List.cons.inj hsplit).1] at hc
  exact ht ⟨u, c', d, v', hc, hd, huv⟩

theorem gsub_ssidPattern (ht : ¬HasMark t) (hcode : IsCode s) (rest : Text) :
    gsub ssidPattern [] (t ++ ' ' :: (s ++ rest)) = t := by
  obtain ⟨digits, hlength, hdigits, rfl⟩ := hcode
  obtain ⟨d, digits, rfl⟩ := List.exists_cons_of_length_pos (by omega : 0 < digits.length)
  have hspace : isSpace ' ' = true := by decide
  obtain ⟨captures, hmatch⟩ := ssidPattern_match [] hspace (hdigits d List.mem_cons_self)
    (digits ++ rest)
  have hgsub : gsub ssidPattern [] ((' ' :: '0' :: 'x' :: d :: (digits ++ rest)) ++ []) = _ :=
    gsub_match (List.cons_ne_nil _ _) (by rw [List.append_nil]; exact hmatch)
  rw [List.append_nil, gsub_nil rfl] at hgsub
  rw [gsub_before (noMatchIn_ssidPattern ht)]
  exact (congrArg (t ++ ·) hgsub).trans (List.append_nil t)

/-! ### The security fields -/

theorem hex_in_escaped (ht : IsEscaped t) (huv : t = u ++ v) {d s' : Text} (hne : d ≠ [])
    (hd : ∀ c ∈ d, isDigit c = true) (h : v ++ ' ' :: s = '0' :: 'x' :: (d ++ ' ' :: s')) :
    v = '0' :: 'x' :: d ∧ s = s' := by
  obtain ⟨e, d', rfl⟩ := List.exists_cons_of_ne_nil hne
  obtain ⟨w, rfl⟩ := code_before_space (hd e List.mem_cons_self) h
  have hrest : (e :: w) ++ ' ' :: s = (e :: d') ++ ' ' :: s' := by
    simpa using h
  rcases append_space_cases hrest (space_notMem_of_digits hd) with ⟨hw, rfl⟩ | ⟨w', hw⟩
  · rw [hw]
    exact ⟨rfl, rfl⟩
  · refine absurd (ht.not_digits_space (u := u ++ ['0', 'x']) (v := w') hne hd ?_) id
    rw [huv, hw]
    simp

theorem noMatchIn_hexPattern (ht : IsEscaped t) (hcode : ¬EndsInCode t) :
    NoMatchIn (hexPattern pat) (t ++ [' ']) s := by
  apply NoMatchIn.append
  · intro u v huv hv
    by_contra hmatch
    obtain ⟨m, hm⟩ := Option.ne_none_iff_exists'.mp hmatch
    obtain ⟨d, s', hne, hd, hsplit, -⟩ := hexPattern_some hm
    obtain ⟨rfl, -⟩ := hex_in_escaped ht huv hne hd hsplit
    exact hcode ⟨u, d, hne, hd, huv⟩
  · apply noMatchIn_singleton
    by_contra hmatch
    obtain ⟨m, hm⟩ := Option.ne_none_iff_exists'.mp hmatch
    obtain ⟨d, s', -, -, hsplit, -⟩ := hexPattern_some hm
    exact absurd (List.cons.inj hsplit).1 (by decide)

def IsHexText (t : Text) : Prop :=
  ∃ d, d ≠ [] ∧ (∀ c ∈ d, isDigit c = true) ∧ t = '0' :: 'x' :: d

theorem IsCode.isHexText (h : IsCode t) : IsHexText t := by
  obtain ⟨d, hlength, hd, rfl⟩ := h
  exact ⟨d, List.ne_nil_of_length_pos (by omega), hd, rfl⟩

theorem matchText_first {text rest : Text} {captures : List Text}
    (hbefore : NoMatchIn pat u (text ++ rest))
    (h : doMatch pat [] (text ++ rest) = some ⟨captures, rest⟩) :
    matchText pat (u ++ (text ++ rest)) = some text := by
  rw [matchText, find_first hbefore h, Option.map_some, Found.text_eq]

theorem space_stops_digits (c : Char) (h : (' ' :: s).head? = some c) : isDigit c = false := by
  obtain rfl := Option.some.inj h
  decide

theorem securityPattern_match (ht : IsHexText t) (hu : IsHexText u) :
    doMatch securityPattern start ((t ++ ' ' :: u) ++ ' ' :: s) = some ⟨[], ' ' :: s⟩ := by
  obtain ⟨d, hne, hd, rfl⟩ := ht
  obtain ⟨e, hne', he, rfl⟩ := hu
  have hcode : doMatch (lit ['0', 'x'] ++ [.maxRepeat isDigit 1]) start
      (['0', 'x'] ++ (e ++ ' ' :: s)) = some ⟨[], ' ' :: s⟩ := by
    rw [doMatch_lit]
    exact doMatch_maxRepeat_run he space_stops_digits (List.length_pos_iff.mpr hne') rfl
  have hmatch : doMatch securityPattern start _ = _ := hexPattern_run hne hd hcode
  simpa using hmatch

theorem newPattern_match (ht : IsHexText t) {c : Char} (hc : isNonspace c = true) :
    doMatch newPattern start (t ++ ' ' :: c :: s) = some ⟨[], []⟩ := by
  obtain ⟨d, hne, hd, rfl⟩ := ht
  have hall : doMatch [.single isNonspace, .maxRepeat isAny 0] start (c :: s) = some ⟨[], []⟩ := by
    rw [doMatch_single_cons hc]
    exact doMatch_maxRepeat_all (fun _ _ => rfl) (Nat.zero_le _)
  exact hexPattern_run hne hd hall

theorem gsub_updatePattern (ht : IsHexText t) (hu : IsHexText u) :
    gsub updatePattern [] (t ++ ' ' :: (u ++ ' ' :: s)) = gsub updatePattern [] s := by
  obtain ⟨d, hne, hd, rfl⟩ := ht
  obtain ⟨e, hne', he, rfl⟩ := hu
  have hcode : doMatch (lit ['0', 'x'] ++ [.maxRepeat isDigit 1, .single isSpace]) []
      (['0', 'x'] ++ (e ++ ' ' :: s)) = some ⟨[], s⟩ := by
    rw [doMatch_lit]
    exact doMatch_maxRepeat_run he space_stops_digits (List.length_pos_iff.mpr hne')
      (doMatch_single_cons rfl)
  have hmatch : doMatch updatePattern [] _ = _ := hexPattern_run hne hd hcode
  have hgsub : gsub updatePattern []
      (('0' :: 'x' :: (d ++ ' ' :: '0' :: 'x' :: (e ++ [' ']))) ++ s) = _ :=
    gsub_match (List.cons_ne_nil _ _) (by simpa using hmatch)
  simpa using hgsub

/-! ### No `0x` in the last fields -/

theorem code_append_space (h : ['0', 'x'] <:+: t ++ ' ' :: s) :
    ['0', 'x'] <:+: t ∨ ['0', 'x'] <:+: s := by
  obtain ⟨a, b, hab⟩ := h
  rw [List.append_assoc] at hab
  rcases List.append_eq_append_iff.mp hab with ⟨more, rfl, hmore⟩ | ⟨more, rfl, hmore⟩
  · left
    rcases more with _ | ⟨c, _ | ⟨e, more⟩⟩ <;>
      simp only [List.nil_append, List.cons_append, List.cons.injEq] at hmore
    · exact absurd hmore.1 (by decide)
    · exact absurd hmore.2.1 (by decide)
    · obtain ⟨rfl, rfl, -⟩ := hmore
      exact ⟨a, more, by simp⟩
  · right
    cases more with
    | nil => exact absurd (List.cons.inj hmore).1 (by decide)
    | cons c more =>
        rw [(List.cons.inj hmore).2]
        exact ⟨more, b, by simp⟩

theorem not_code_of_notMem (h : 'x' ∉ t) : ¬['0', 'x'] <:+: t := by
  rintro ⟨a, b, rfl⟩
  simp at h

theorem not_code_of_length (h : t.length ≤ 1) : ¬['0', 'x'] <:+: t := by
  intro hinfix
  have hlength := hinfix.length_le
  simp only [List.length_cons, List.length_nil] at hlength
  omega

theorem restFields_no_code (hinfo : IsStored info)
    (hvlan : ∀ c ∈ info.fhVlanId, isDigit c = true) : ¬['0', 'x'] <:+: restFields info := by
  obtain ⟨bh, -, hbh⟩ := hinfo.isBhBssSupported
  obtain ⟨fh, -, hfh⟩ := hinfo.isFhBssSupported
  obtain ⟨hidden, hhidden, hx, -⟩ := hinfo.isHidden
  have hhiddenX : 'x' ∉ info.isHidden := by
    rw [hhidden]
    simpa using hx
  intro hcode
  unfold restFields at hcode
  rcases code_append_space hcode with hcode | hcode
  · exact not_code_of_length (by rw [hbh]; rfl) hcode
  rcases code_append_space hcode with hcode | hcode
  · exact not_code_of_length (by rw [hfh]; rfl) hcode
  rcases code_append_space hcode with hcode | hcode
  · exact not_code_of_notMem hhiddenX hcode
  rcases code_append_space hcode with hcode | hcode
  · exact not_code_of_notMem (fun hmem => absurd (hvlan _ hmem) (by decide)) hcode
  rcases code_append_space hcode with hcode | hcode
  · exact not_code_of_notMem hinfo.primVlan.2.1 hcode
  rcases hinfo.defPCP with hpcp | hpcp
  · exact not_code_of_length hpcp hcode
  · exact not_code_of_notMem hpcp hcode

theorem noMatchIn_of_no_code (h : ¬['0', 'x'] <:+: t ++ s) : NoMatchIn (hexPattern pat) t s := by
  intro u v huv hv
  by_contra hmatch
  obtain ⟨m, hm⟩ := Option.ne_none_iff_exists'.mp hmatch
  obtain ⟨d, s', -, -, hsplit, -⟩ := hexPattern_some hm
  apply h
  refine ⟨u, d ++ ' ' :: s', ?_⟩
  rw [huv, List.append_assoc u v s, hsplit]
  simp

theorem noMatchIn_updatePattern (ht : IsEscaped t) {c : Char} :
    NoMatchIn updatePattern (t ++ [' ']) (c :: ' ' :: s) := by
  apply NoMatchIn.append
  · intro u v huv hv
    by_contra hmatch
    obtain ⟨m, hm⟩ := Option.ne_none_iff_exists'.mp hmatch
    obtain ⟨d, s', hne, hd, hsplit, hcode⟩ := hexPattern_some hm
    obtain ⟨-, rfl⟩ := hex_in_escaped ht huv hne hd hsplit
    obtain ⟨s'', hs'', -⟩ := doMatch_lit_some hcode
    exact absurd (List.cons.inj (List.cons.inj hs'').2).1 (by decide)
  · apply noMatchIn_singleton
    by_contra hmatch
    obtain ⟨m, hm⟩ := Option.ne_none_iff_exists'.mp hmatch
    obtain ⟨d, s', -, -, hsplit, -⟩ := hexPattern_some hm
    exact absurd (List.cons.inj hsplit).1 (by decide)

/-! ### The pass phrase and the last fields -/

theorem restFields_not_shifted (hinfo : IsStored info) {bh fh : Char}
    {hidden fhVlanId primVlan defPCP rest : Text}
    (hrest : IsRest bh fh hidden fhVlanId primVlan defPCP)
    (h : restFields info = fh :: ' ' :: (hidden ++ ' ' :: (fhVlanId ++ rest))) : False := by
  obtain ⟨bh', -, hbh'⟩ := hinfo.isBhBssSupported
  obtain ⟨fh', -, hfh'⟩ := hinfo.isFhBssSupported
  obtain ⟨hidden', hhidden', -, -⟩ := hinfo.isHidden
  rw [restFields, hbh', hfh', hhidden'] at h
  simp only [List.cons_append, List.nil_append, List.cons.injEq, true_and] at h
  have hfields : [fh'] ++ ' ' :: ('h' :: (hidden' ++ ' ' :: (info.fhVlanId ++
      ' ' :: (info.primVlan ++ ' ' :: info.defPCP)))) = hidden ++ ' ' :: (fhVlanId ++ rest) := h.2
  obtain ⟨c, vlan, rfl⟩ := List.exists_cons_of_ne_nil hrest.fhVlanId.1
  rcases append_space_cases hfields (space_notMem_of_nonspace hrest.hidden.2) with
    ⟨-, hvlan⟩ | ⟨w, hw⟩
  · have hc := hrest.fhVlanId.2 c List.mem_cons_self
    rw [← (List.cons.inj hvlan).1] at hc
    exact absurd hc (by decide)
  · have hlength := congrArg List.length hw
    have hpos := List.length_pos_iff.mpr hrest.hidden.1
    simp only [List.length_cons, List.length_nil, List.length_append] at hlength
    omega

theorem restPattern_escaped (ht : IsEscaped t) (huv : t = u ++ v) (hinfo : IsStored info) :
    doMatch restPattern start (v ++ ' ' :: restFields info) = none := by
  by_contra hmatch
  obtain ⟨m, hm⟩ := Option.ne_none_iff_exists'.mp hmatch
  obtain ⟨bh, fh, hidden, vlan, prim, pcp, hrest, hsplit⟩ := restPattern_some hm
  have hbh := hrest.bh
  rcases v with _ | ⟨a, _ | ⟨b, v⟩⟩
  · rw [← (List.cons.inj hsplit).1] at hbh
    exact absurd hbh (by decide)
  · exact restFields_not_shifted hinfo hrest (List.cons.inj (List.cons.inj hsplit).2).2
  · rw [← (List.cons.inj hsplit).1] at hbh
    rw [(List.cons.inj (List.cons.inj hsplit).2).1] at huv
    exact ht.not_digit_space hbh huv

theorem noMatchIn_passPattern (ht : IsEscaped t) (hinfo : IsStored info) :
    NoMatchIn passPattern t (' ' :: restFields info) := by
  intro u v huv hv
  obtain ⟨c, v, rfl⟩ := List.exists_cons_of_ne_nil hv
  have hnone : doMatch restPattern [] (v ++ ' ' :: restFields info) = none :=
    restPattern_escaped ht (u := u ++ [c]) (by rw [huv, List.append_assoc]; rfl) hinfo
  rw [passPattern, List.cons_append, doMatch, hnone, ite_self]

theorem noMatchIn_restPattern (ht : IsEscaped t) (hinfo : IsStored info) :
    NoMatchIn restPattern (t ++ [' ']) (restFields info) := by
  apply NoMatchIn.append
  · intro u v huv _
    exact restPattern_escaped ht huv hinfo
  · apply noMatchIn_singleton
    by_contra hmatch
    obtain ⟨m, hm⟩ := Option.ne_none_iff_exists'.mp hmatch
    obtain ⟨c, s', hsplit, hc, -⟩ := doMatch_single_some hm
    rw [← (List.cons.inj hsplit).1] at hc
    exact absurd hc (by decide)

/-! ### Tokens -/

theorem gmatch_token {token : Text} (hne : token ≠ []) (h : ∀ c ∈ token, isNonspace c = true)
    (s : Text) :
    gmatch tokenPattern (token ++ ' ' :: s) = [token] :: gmatch tokenPattern s := by
  have hmatch : doMatch tokenPattern [] (token ++ ' ' :: s) = some ⟨[token], s⟩ := by
    rw [tokenPattern, doMatch_openCapture]
    apply doMatch_maxRepeat_run h _ (List.length_pos_iff.mpr hne)
    · rw [doMatch_closeCapture, doMatch_optional_take (by decide) (doMatch_nil _ _)]
      rfl
    · intro c hc
      obtain rfl := Option.some.inj hc
      decide
  have hgmatch : gmatch tokenPattern ((token ++ [' ']) ++ s) = _ :=
    gmatch_match (List.append_ne_nil_of_left_ne_nil hne _) (by simpa using hmatch)
  simpa using hgmatch

theorem gmatch_last_token {token : Text} (hne : token ≠ [])
    (h : ∀ c ∈ token, isNonspace c = true) : gmatch tokenPattern token = [[token]] := by
  have hmatch : doMatch tokenPattern [] (token ++ []) = some ⟨[token], []⟩ := by
    rw [tokenPattern, doMatch_openCapture]
    apply doMatch_maxRepeat_run h (by simp) (List.length_pos_iff.mpr hne)
    rw [doMatch_closeCapture, doMatch_optional_skip (by simp)]
    rfl
  have hgmatch := gmatch_match hne hmatch
  rwa [List.append_nil, gmatch_nil rfl] at hgmatch

theorem isNonspace_of_isDigit {c : Char} (h : isDigit c = true) : isNonspace c = true := by
  rw [isNonspace, isSpace_of_isDigit h]
  rfl

theorem gmatch_rest {bh fh : Char} {hidden fhVlanId primVlan defPCP : Text}
    (h : IsRest bh fh hidden fhVlanId primVlan defPCP) :
    (gmatch tokenPattern (bh :: ' ' :: fh :: ' ' :: (hidden ++ ' ' :: (fhVlanId ++
      ' ' :: (primVlan ++ ' ' :: defPCP))))).map (fun captures => captures.headD []) =
      [[bh], [fh], hidden, fhVlanId, primVlan, defPCP] := by
  have hbh := gmatch_token (List.cons_ne_nil bh [])
    (by simpa using isNonspace_of_isDigit h.bh)
    (fh :: ' ' :: (hidden ++ ' ' :: (fhVlanId ++ ' ' :: (primVlan ++ ' ' :: defPCP))))
  have hfh := gmatch_token (List.cons_ne_nil fh [])
    (by simpa using isNonspace_of_isDigit h.fh)
    (hidden ++ ' ' :: (fhVlanId ++ ' ' :: (primVlan ++ ' ' :: defPCP)))
  rw [List.singleton_append] at hbh hfh
  rw [hbh, hfh, gmatch_token h.hidden.1 h.hidden.2,
    gmatch_token h.fhVlanId.1 fun c hc => isNonspace_of_isDigit (h.fhVlanId.2 c hc),
    gmatch_token h.primVlan.1 h.primVlan.2, gmatch_last_token h.defPCP.1 h.defPCP.2]
  rfl

/-! ## Reading a line back -/

theorem IsCode.length (h : IsCode t) : t.length = 6 := by
  obtain ⟨d, hlength, -, rfl⟩ := h
  rw [List.length_cons, List.length_cons, hlength]

theorem IsStored.isRest (hinfo : IsStored info) (hplain : Plain info) :
    ∃ bh fh, IsRest bh fh info.isHidden info.fhVlanId info.primVlan info.defPCP ∧
      info.isBhBssSupported = [bh] ∧ info.isFhBssSupported = [fh] := by
  obtain ⟨bh, hbh, hbh'⟩ := hinfo.isBhBssSupported
  obtain ⟨fh, hfh, hfh'⟩ := hinfo.isFhBssSupported
  obtain ⟨hidden, hhidden, -, hhidden'⟩ := hinfo.isHidden
  refine ⟨bh, fh, ⟨hbh, hfh, ?_, hplain.fhVlanId, ⟨hinfo.primVlan.1, hinfo.primVlan.2.2⟩,
    hplain.defPCP⟩, hbh', hfh'⟩
  rw [hhidden]
  refine ⟨List.cons_ne_nil _ _, fun c hc => ?_⟩
  rcases List.mem_cons.mp hc with rfl | hc
  · decide
  · exact hhidden' c hc

theorem matchText_security (hinfo : IsStored info) (hcode : ¬EndsInCode info.ssid) :
    matchText securityPattern (bssFields info) = some (info.authMode ++ ' ' :: info.encType) := by
  have hmatch : matchText securityPattern ((info.ssid ++ [' ']) ++
      ((info.authMode ++ ' ' :: info.encType) ++
        ' ' :: (info.passPhrase ++ ' ' :: restFields info))) = _ :=
    matchText_first (noMatchIn_hexPattern hinfo.ssid hcode)
      (securityPattern_match hinfo.authMode.isHexText hinfo.encType.isHexText)
  simpa [bssFields] using hmatch

theorem matchText_new (hinfo : IsStored info) (hcode : ¬EndsInCode info.ssid) :
    matchText newPattern (bssFields info) = some (info.authMode ++ ' ' :: (info.encType ++
      ' ' :: (info.passPhrase ++ ' ' :: restFields info))) := by
  have hnew : doMatch newPattern [] ((info.authMode ++ ' ' :: (info.encType ++
      ' ' :: (info.passPhrase ++ ' ' :: restFields info))) ++ []) = some ⟨[], []⟩ := by
    obtain ⟨d, -, -, henc⟩ := hinfo.encType
    rw [List.append_nil, henc]
    exact newPattern_match hinfo.authMode.isHexText (by decide)
  have hmatch : matchText newPattern ((info.ssid ++ [' ']) ++ (_ ++ [])) = _ :=
    matchText_first (noMatchIn_hexPattern hinfo.ssid hcode) hnew
  simpa [bssFields] using hmatch

theorem IsStored.restFields_cons (hinfo : IsStored info) :
    ∃ bh fh t, isDigit bh = true ∧ isDigit fh = true ∧
      restFields info = bh :: ' ' :: fh :: ' ' :: 'h' :: t := by
  obtain ⟨bh, hbh, hbh'⟩ := hinfo.isBhBssSupported
  obtain ⟨fh, hfh, hfh'⟩ := hinfo.isFhBssSupported
  obtain ⟨hidden, hhidden, -, -⟩ := hinfo.isHidden
  refine ⟨bh, fh, hidden ++ ' ' :: (info.fhVlanId ++ ' ' :: (info.primVlan ++
    ' ' :: info.defPCP)), hbh, hfh, ?_⟩
  rw [restFields, hbh', hfh', hhidden]
  rfl

theorem gsub_update_pass (hinfo : IsStored info) :
    gsub updatePattern [] (info.passPhrase ++ ' ' :: restFields info) =
      info.passPhrase ++ ' ' :: gsub updatePattern [] (restFields info) := by
  obtain ⟨bh, fh, t, -, -, hrest⟩ := hinfo.restFields_cons
  rw [hrest]
  have hbefore : gsub updatePattern [] ((info.passPhrase ++ [' ']) ++
      (bh :: ' ' :: fh :: ' ' :: 'h' :: t)) = _ :=
    gsub_before (noMatchIn_updatePattern hinfo.passPhrase)
  simpa using hbefore

theorem gsub_update (hinfo : IsStored info) (hvlan : ∀ c ∈ info.fhVlanId, isDigit c = true) :
    gsub updatePattern [] (info.authMode ++ ' ' :: (info.encType ++
      ' ' :: (info.passPhrase ++ ' ' :: restFields info))) =
      info.passPhrase ++ ' ' :: restFields info := by
  have hnone : NoMatchIn updatePattern (restFields info) [] :=
    noMatchIn_of_no_code (by rw [List.append_nil]; exact restFields_no_code hinfo hvlan)
  rw [gsub_updatePattern hinfo.authMode.isHexText hinfo.encType.isHexText, gsub_update_pass hinfo,
    gsub_none hnone rfl]

theorem parseBss_plain (hinfo : IsStored info) (hplain : Plain info) :
    parseBss (bssFields info) = some (some info) := by
  obtain ⟨bh, fh, hrest, hbh, hfh⟩ := hinfo.isRest hplain
  have hfields : restFields info = bh :: ' ' :: fh :: ' ' :: (info.isHidden ++
      ' ' :: (info.fhVlanId ++ ' ' :: (info.primVlan ++ ' ' :: info.defPCP))) := by
    rw [restFields, hbh, hfh]
    rfl
  have hrestMatch : doMatch restPattern [] (restFields info ++ []) = some ⟨[], []⟩ := by
    rw [List.append_nil, hfields]
    exact restPattern_match hrest
  have hrestText : matchText restPattern (info.passPhrase ++ ' ' :: restFields info) =
      some (restFields info) := by
    have hmatch : matchText restPattern ((info.passPhrase ++ [' ']) ++ (restFields info ++ [])) = _ :=
      matchText_first (by rw [List.append_nil]; exact noMatchIn_restPattern hinfo.passPhrase hinfo)
        hrestMatch
    simpa using hmatch
  have hpass : gsub passPattern [] (info.passPhrase ++ ' ' :: restFields info) =
      info.passPhrase := by
    have hmatch : doMatch passPattern [] ((' ' :: restFields info) ++ []) = some ⟨[], []⟩ := by
      rw [passPattern, List.cons_append, doMatch_single_cons (by decide)]
      exact hrestMatch
    have hgsub : gsub passPattern [] ((' ' :: restFields info) ++ []) = _ :=
      gsub_match (List.cons_ne_nil _ _) hmatch
    rw [List.append_nil, gsub_nil rfl] at hgsub
    rw [gsub_before (noMatchIn_passPattern hinfo.passPhrase hinfo), hgsub]
    exact List.append_nil _
  have hssid : gsub ssidPattern [] (bssFields info) = info.ssid :=
    gsub_ssidPattern hplain.mark hinfo.authMode _
  have hauth : (info.authMode ++ ' ' :: info.encType).take 6 = info.authMode := by
    rw [← hinfo.authMode.length, List.take_left]
  have henc : ((info.authMode ++ ' ' :: info.encType).drop 7).take 6 = info.encType := by
    have hseven : 7 = (info.authMode ++ [' ']).length := by
      rw [List.length_append, hinfo.authMode.length]
      rfl
    rw [List.append_cons, hseven, List.drop_left, ← hinfo.encType.length, List.take_length]
  have htokens := gmatch_rest hrest
  rw [← hfields] at htokens
  unfold parseBss
  rw [matchText_security hinfo hplain.code, Option.bind_eq_bind, Option.bind_some,
    matchText_new hinfo hplain.code, Option.bind_some]
  dsimp only
  rw [gsub_update hinfo hplain.fhVlanId.2, hrestText, Option.bind_some, htokens, hssid, hpass, hauth, henc, ← hbh, ← hfh]

/-! ## What can be read -/

theorem matchText_rest {text : Text} (h : matchText restPattern s = some text) :
    ∃ bh fh hidden fhVlanId primVlan defPCP, IsRest bh fh hidden fhVlanId primVlan defPCP ∧
      text = bh :: ' ' :: fh :: ' ' :: (hidden ++ ' ' :: (fhVlanId ++ ' ' :: (primVlan ++
        ' ' :: defPCP))) := by
  rw [matchText, Option.map_eq_some_iff] at h
  obtain ⟨f, hfind, rfl⟩ := h
  obtain ⟨s', hs', hmatch, -⟩ := find_some hfind
  obtain ⟨bh, fh, hidden, vlan, prim, pcp, hrest, rfl⟩ := restPattern_some hmatch
  refine ⟨bh, fh, hidden, vlan, prim, pcp, hrest, ?_⟩
  have hsplit : s = f.before ++ ((bh :: ' ' :: fh :: ' ' :: (hidden ++ ' ' :: (vlan ++
      ' ' :: (prim ++ ' ' :: pcp)))) ++ f.rest) := by
    rw [hs']
    simp
  rw [hsplit]
  exact Found.text_eq

theorem parseBss_some {r : Option BssInfo} (h : parseBss s = some r) :
    ∃ info', r = some info' ∧ info'.ssid = gsub ssidPattern [] s ∧
      (∃ new, matchText newPattern s = some new ∧
        info'.passPhrase = gsub passPattern [] (gsub updatePattern [] new)) ∧
      (info'.fhVlanId ≠ [] ∧ ∀ c ∈ info'.fhVlanId, isDigit c = true) ∧
      (info'.defPCP ≠ [] ∧ ∀ c ∈ info'.defPCP, isNonspace c = true) := by
  unfold parseBss at h
  obtain ⟨security, -, h⟩ := Option.bind_eq_some_iff.mp h
  obtain ⟨new, hnew, h⟩ := Option.bind_eq_some_iff.mp h
  obtain ⟨rest, hrest, h⟩ := Option.bind_eq_some_iff.mp h
  obtain ⟨bh, fh, hidden, vlan, prim, pcp, hisRest, rfl⟩ := matchText_rest hrest
  rw [gmatch_rest hisRest] at h
  obtain rfl := Option.some.inj h
  exact ⟨_, rfl, rfl, ⟨new, hnew, rfl⟩, hisRest.fhVlanId, hisRest.defPCP⟩

/-! ### The SSID that is read -/

theorem gsub_ssidPattern_mark (h : HasMark s) :
    ∃ before c d after, isSpace c = true ∧ isDigit d = true ∧
      s = before ++ c :: '0' :: 'x' :: d :: after ∧
      NoMatchIn ssidPattern before (c :: '0' :: 'x' :: d :: after) ∧
      gsub ssidPattern [] s = before := by
  obtain ⟨u, c, d, v, hc, hd, rfl⟩ := h
  obtain ⟨captures, hmatch⟩ := ssidPattern_match [] hc hd v
  obtain ⟨f, hfind⟩ := Option.ne_none_iff_exists'.mp (find_ne_none (u := u) hmatch)
  obtain ⟨s', hs', hfirst, hbefore⟩ := find_some hfind
  obtain ⟨c', d', after, hc', hd', rfl⟩ := ssidPattern_some hfirst
  obtain ⟨captures', hmatch'⟩ := ssidPattern_match [] hc' hd' after
  refine ⟨f.before, c', d', after, hc', hd', hs', hbefore, ?_⟩
  have hgsub : gsub ssidPattern [] ((c' :: '0' :: 'x' :: d' :: after) ++ []) = _ :=
    gsub_match (List.cons_ne_nil _ _) (by rw [List.append_nil]; exact hmatch')
  rw [List.append_nil, gsub_nil rfl] at hgsub
  rw [hs', gsub_before hbefore, hgsub, List.append_nil, List.append_nil]

theorem not_hasMark_before {before : Text} (h : NoMatchIn ssidPattern before s) :
    ¬HasMark before := by
  rintro ⟨u, c, d, v, hc, hd, hsplit⟩
  obtain ⟨captures, hmatch⟩ := ssidPattern_match [] hc hd (v ++ s)
  have hnone := h u _ hsplit (List.cons_ne_nil _ _)
  rw [show c :: '0' :: 'x' :: d :: v ++ s = c :: '0' :: 'x' :: d :: (v ++ s) from rfl, hmatch] at hnone
  cases hnone

theorem not_endsInCode_backslash : ¬EndsInCode (t ++ ['\\']) := by
  rintro ⟨u, d, hne, hd, hsplit⟩
  obtain ⟨d', c, rfl⟩ := List.eq_nil_or_concat' d |>.resolve_left hne
  have hc := hd c (List.mem_append_right d' (List.mem_singleton.mpr rfl))
  have hlast : t ++ ['\\'] = (u ++ '0' :: 'x' :: d') ++ [c] := by
    rw [hsplit]
    simp
  rw [← (List.cons.inj (List.append_inj' hlast rfl).2).1] at hc
  exact absurd hc (by decide)

theorem gsub_ssid_cut (ht : IsEscaped t) (hmark : HasMark t) (rest : Text) :
    ¬HasMark (gsub ssidPattern [] (t ++ rest)) ∧ ¬EndsInCode (gsub ssidPattern [] (t ++ rest)) := by
  obtain ⟨u, c, d, v, hc, hd, ht'⟩ := hmark
  have hmark' : HasMark (t ++ rest) := ⟨u, c, d, v ++ rest, hc, hd, by rw [ht']; simp⟩
  obtain ⟨before, c', d', after, hc', hd', hsplit, hbefore, hgsub⟩ := gsub_ssidPattern_mark hmark'
  rw [hgsub]
  refine ⟨not_hasMark_before hbefore, ?_⟩
  -- The first mark is not behind the mark in the text.
  have hsame : before ++ c' :: '0' :: 'x' :: d' :: after =
      u ++ c :: '0' :: 'x' :: d :: (v ++ rest) := by
    rw [← hsplit, ht']
    simp
  have hspace : ∃ w, t = before ++ c' :: w := by
    rcases List.append_eq_append_iff.mp hsame with ⟨more, rfl, hmore⟩ | ⟨more, rfl, hmore⟩
    · cases more with
      | nil =>
          rw [List.nil_append] at hmore
          rw [(List.cons.inj hmore).1, ht', List.append_nil]
          exact ⟨_, rfl⟩
      | cons e more =>
          rw [(List.cons.inj hmore).1, ht']
          exact ⟨more ++ c :: '0' :: 'x' :: d :: v, by simp⟩
    · cases more with
      | nil =>
          rw [List.nil_append] at hmore
          rw [← (List.cons.inj hmore).1, ht', List.append_nil]
          exact ⟨_, rfl⟩
      | cons e more =>
          obtain ⟨captures, hmatch⟩ := ssidPattern_match [] hc hd (v ++ rest)
          have hnone := hbefore u (e :: more) rfl (List.cons_ne_nil _ _)
          rw [← hmore, hmatch] at hnone
          cases hnone
  obtain ⟨w, hw⟩ := hspace
  have hspace' : c' = ' ' := ht.space c' (by rw [hw]; simp) hc'
  rw [hspace'] at hw
  obtain ⟨before', rfl⟩ := ht.backslash before w hw
  exact not_endsInCode_backslash

/-! ### An SSID that ends in a code -/

theorem matchText_new_code (hinfo : IsStored info) {d : Text} (hne : d ≠ [])
    (hd : ∀ c ∈ d, isDigit c = true) (hssid : info.ssid = u ++ '0' :: 'x' :: d) :
    matchText newPattern (bssFields info) = some (('0' :: 'x' :: d) ++ ' ' :: (info.authMode ++
      ' ' :: (info.encType ++ ' ' :: (info.passPhrase ++ ' ' :: restFields info)))) := by
  have hnew : doMatch newPattern [] ((('0' :: 'x' :: d) ++ ' ' :: (info.authMode ++
      ' ' :: (info.encType ++ ' ' :: (info.passPhrase ++ ' ' :: restFields info)))) ++ []) =
      some ⟨[], []⟩ := by
    obtain ⟨e, -, -, hauth⟩ := hinfo.authMode
    rw [List.append_nil, hauth]
    exact newPattern_match ⟨d, hne, hd, rfl⟩ (by decide)
  have hbefore : NoMatchIn newPattern u ((('0' :: 'x' :: d) ++ ' ' :: (info.authMode ++
      ' ' :: (info.encType ++ ' ' :: (info.passPhrase ++ ' ' :: restFields info)))) ++ []) := by
    intro a v hav hv
    by_contra hmatch
    obtain ⟨m, hm⟩ := Option.ne_none_iff_exists'.mp hmatch
    obtain ⟨e, s', hne', he, hsplit, -⟩ := hexPattern_some hm
    rw [List.append_nil, ← List.append_assoc] at hsplit
    have hsuffix : info.ssid = a ++ (v ++ '0' :: 'x' :: d) := by
      rw [hssid, hav, List.append_assoc]
    obtain ⟨hcode, -⟩ := hex_in_escaped hinfo.ssid hsuffix hne' he hsplit
    -- The digits of a code in front of the last one would have an `x` among them.
    rcases v with _ | ⟨b, _ | ⟨c, v⟩⟩
    · exact hv rfl
    · exact absurd (List.cons.inj (List.cons.inj hcode).2).1 (by decide)
    · have hrest := (List.cons.inj (List.cons.inj hcode).2).2
      have hx := he 'x' (by rw [← hrest]; simp)
      exact absurd hx (by decide)
  have hmatch : matchText newPattern (u ++ (_ ++ [])) = _ := matchText_first hbefore hnew
  simpa [bssFields, hssid] using hmatch

theorem passPattern_digit {c : Char} (hc : isDigit c = true) :
    doMatch passPattern start (c :: s) = none := by
  rw [passPattern, doMatch, if_neg (by rw [isSpace_of_isDigit hc]; decide)]

theorem gsub_update_flags {bh fh : Char} :
    gsub updatePattern [] (bh :: ' ' :: fh :: ' ' :: 'h' :: t) =
      bh :: ' ' :: fh :: ' ' :: 'h' :: gsub updatePattern [] t := by
  have hno : ∀ (c e : Char) (s : Text), ¬(c = '0' ∧ e = 'x') →
      doMatch updatePattern [] (c :: e :: s) = none := by
    intro c e s hce
    by_contra hmatch
    obtain ⟨m, hm⟩ := Option.ne_none_iff_exists'.mp hmatch
    obtain ⟨d, s', -, -, hsplit, -⟩ := hexPattern_some hm
    exact hce ⟨(List.cons.inj hsplit).1, (List.cons.inj (List.cons.inj hsplit).2).1⟩
  have hh : doMatch updatePattern [] ('h' :: t) = none := rfl
  have hbefore : NoMatchIn updatePattern ([bh] ++ ([' '] ++ ([fh] ++ ([' '] ++ ['h'])))) t := by
    refine NoMatchIn.append (noMatchIn_singleton (hno _ _ _ (by simp)))
      (NoMatchIn.append (noMatchIn_singleton (hno _ _ _ (by simp)))
        (NoMatchIn.append (noMatchIn_singleton (hno _ _ _ (by simp)))
          (NoMatchIn.append (noMatchIn_singleton (hno _ _ _ (by simp)))
            (noMatchIn_singleton hh))))
  exact gsub_before hbefore

theorem not_isEscaped_flags {bh fh : Char} (hbh : isDigit bh = true) :
    ¬IsEscaped (gsub passPattern [] (bh :: ' ' :: fh :: ' ' :: 'h' :: t)) := by
  have hspace : doMatch passPattern [] (' ' :: fh :: ' ' :: 'h' :: t) = none := by
    by_contra hmatch
    obtain ⟨m, hm⟩ := Option.ne_none_iff_exists'.mp hmatch
    obtain ⟨c, s', hsplit, -, hrest⟩ := doMatch_single_some hm
    rw [← (List.cons.inj hsplit).2] at hrest
    obtain ⟨bh', fh', hidden, vlan, prim, pcp, hisRest, hsplit'⟩ := restPattern_some hrest
    have hfh' := hisRest.fh
    rw [← (List.cons.inj (List.cons.inj (List.cons.inj hsplit').2).2).1] at hfh'
    exact absurd hfh' (by decide)
  have hbefore : NoMatchIn passPattern ([bh] ++ [' ']) (fh :: ' ' :: 'h' :: t) :=
    NoMatchIn.append (noMatchIn_singleton (passPattern_digit hbh)) (noMatchIn_singleton hspace)
  have hgsub : gsub passPattern [] (bh :: ' ' :: fh :: ' ' :: 'h' :: t) =
      bh :: ' ' :: gsub passPattern [] (fh :: ' ' :: 'h' :: t) := gsub_before hbefore
  rw [hgsub]
  intro hescaped
  exact hescaped.not_digit_space (u := []) hbh rfl

theorem isEscaped_of_no_space (h : ∀ c ∈ t, isSpace c = false) : IsEscaped t := by
  have hnot : ' ' ∉ t := fun hmem => absurd (h _ hmem) (by decide)
  constructor
  · intro hhead
    exact hnot (List.mem_of_head? hhead)
  · intro c hc hspace
    rw [h c hc] at hspace
    cases hspace
  · rintro u v rfl
    simp at hnot

theorem IsHexText.no_space (h : IsHexText t) : ∀ c ∈ t, isSpace c = false := by
  obtain ⟨d, -, hd, rfl⟩ := h
  intro c hc
  simp only [List.mem_cons] at hc
  rcases hc with rfl | rfl | hc
  · decide
  · decide
  · exact isSpace_of_isDigit (hd c hc)

theorem hex_of_code_space (ht : IsEscaped t) {e s' : Text} {c : Char} (hne : e ≠ [])
    (he : ∀ c ∈ e, isDigit c = true) (hc : isSpace c = true)
    (h : t ++ ' ' :: s = ['0', 'x'] ++ (e ++ c :: s')) : IsHexText t := by
  obtain ⟨e0, e, rfl⟩ := List.exists_cons_of_ne_nil hne
  obtain ⟨w, rfl⟩ := code_before_space (he e0 List.mem_cons_self) h
  have hrest : (e0 :: w) ++ ' ' :: s = (e0 :: e) ++ c :: s' := by
    simpa using h
  rcases List.append_eq_append_iff.mp hrest with ⟨more, hmore, hmore'⟩ | ⟨more, hmore, hmore'⟩
  · cases more with
    | nil =>
        rw [List.append_nil] at hmore
        exact ⟨e0 :: w, List.cons_ne_nil _ _, by rwa [hmore] at he, rfl⟩
    | cons b more =>
        have hspace := he b (by rw [hmore]; simp)
        rw [← (List.cons.inj hmore').1] at hspace
        exact absurd hspace (by decide)
  · cases more with
    | nil =>
        rw [List.append_nil] at hmore
        exact ⟨e0 :: w, List.cons_ne_nil _ _, by rwa [hmore], rfl⟩
    | cons b more =>
        rw [← (List.cons.inj hmore').1] at hmore
        have hspace : c = ' ' := ht.space c (by rw [hmore]; simp) hc
        rw [hspace] at hmore
        refine absurd (ht.not_digits_space (u := ['0', 'x']) (v := more) hne he ?_) id
        rw [hmore]
        rfl

theorem noMatchIn_update_code (ht : IsHexText t) (hinfo : IsStored info)
    (hpass : ¬IsHexText info.passPhrase) :
    NoMatchIn updatePattern (t ++ [' ']) (info.passPhrase ++ ' ' :: restFields info) := by
  apply NoMatchIn.append
  · intro u v huv hv
    by_contra hmatch
    obtain ⟨m, hm⟩ := Option.ne_none_iff_exists'.mp hmatch
    obtain ⟨d, s', hne, hd, hsplit, hcode⟩ := hexPattern_some hm
    obtain ⟨-, rfl⟩ := hex_in_escaped (isEscaped_of_no_space ht.no_space) huv hne hd hsplit
    obtain ⟨s1, hs1, hdigits⟩ := doMatch_lit_some hcode
    obtain ⟨e, s2, rfl, he, hleast, hspace⟩ := doMatch_maxRepeat_some hdigits
    obtain ⟨c, s3, rfl, hc, -⟩ := doMatch_single_some hspace
    exact hpass (hex_of_code_space hinfo.passPhrase (List.ne_nil_of_length_pos hleast) he hc hs1)
  · apply noMatchIn_singleton
    by_contra hmatch
    obtain ⟨m, hm⟩ := Option.ne_none_iff_exists'.mp hmatch
    obtain ⟨d, s', -, -, hsplit, -⟩ := hexPattern_some hm
    exact absurd (List.cons.inj hsplit).1 (by decide)

theorem not_isEscaped_code (hinfo : IsStored info) :
    ¬IsEscaped (gsub passPattern [] ((info.encType ++ [' ']) ++ (info.passPhrase ++ ' ' :: s))) := by
  have hspace : doMatch passPattern [] (' ' :: (info.passPhrase ++ ' ' :: s)) = none := by
    by_contra hmatch
    obtain ⟨m, hm⟩ := Option.ne_none_iff_exists'.mp hmatch
    obtain ⟨c, s', hsplit, -, hrest⟩ := doMatch_single_some hm
    rw [← (List.cons.inj hsplit).2] at hrest
    obtain ⟨bh, fh, hidden, vlan, prim, pcp, hisRest, hsplit'⟩ := restPattern_some hrest
    have hlength := hinfo.passPhrase_length
    have hpass := hinfo.passPhrase
    have hbh := hisRest.bh
    generalize info.passPhrase = pass at hlength hpass hsplit'
    rcases pass with _ | ⟨a, _ | ⟨b, w⟩⟩
    · simp at hlength
    · simp at hlength
    · rw [← (List.cons.inj hsplit').1] at hbh
      rw [(List.cons.inj (List.cons.inj hsplit').2).1] at hpass
      exact hpass.not_digit_space (u := []) hbh rfl
  have hbefore : NoMatchIn passPattern (info.encType ++ [' ']) (info.passPhrase ++ ' ' :: s) := by
    apply NoMatchIn.append _ (noMatchIn_singleton hspace)
    intro u v huv hv
    obtain ⟨c, v, rfl⟩ := List.exists_cons_of_ne_nil hv
    have hc := hinfo.encType.isHexText.no_space c (by rw [huv]; simp)
    rw [passPattern, List.cons_append, doMatch, if_neg (by rw [hc]; decide)]
  rw [gsub_before hbefore]
  intro hescaped
  obtain ⟨d, hlength, hd, henc⟩ := hinfo.encType
  have hne : d ≠ [] := List.ne_nil_of_length_pos (by omega)
  refine hescaped.not_digits_space (u := ['0', 'x']) (v := gsub passPattern []
    (info.passPhrase ++ ' ' :: s)) hne hd ?_
  rw [henc]
  simp

theorem not_isEscaped_pass (hinfo : IsStored info) {d : Text} (hne : d ≠ [])
    (hd : ∀ c ∈ d, isDigit c = true) :
    ¬IsEscaped (gsub passPattern [] (gsub updatePattern [] (('0' :: 'x' :: d) ++
      ' ' :: (info.authMode ++ ' ' :: (info.encType ++ ' ' :: (info.passPhrase ++
        ' ' :: restFields info)))))) := by
  obtain ⟨bh, fh, t, hbh, hfh, hrest⟩ := hinfo.restFields_cons
  rw [gsub_updatePattern ⟨d, hne, hd, rfl⟩ hinfo.authMode.isHexText]
  by_cases hpass : IsHexText info.passPhrase
  · rw [gsub_updatePattern hinfo.encType.isHexText hpass, hrest, gsub_update_flags]
    exact not_isEscaped_flags hbh
  · have hupdate : gsub updatePattern [] ((info.encType ++ [' ']) ++
        (info.passPhrase ++ ' ' :: restFields info)) = _ :=
      gsub_before (noMatchIn_update_code hinfo.encType.isHexText hinfo hpass)
    rw [gsub_update_pass hinfo] at hupdate
    rw [List.append_cons, hupdate]
    exact not_isEscaped_code hinfo

theorem plain_of_parseBss (hinfo : IsStored info) {r : Option BssInfo}
    (h : parseBss (bssFields info) = some r) :
    ∃ info', r = some info' ∧ (IsEscaped info'.passPhrase → Plain info') := by
  obtain ⟨info', rfl, hssid, ⟨new, hnew, hpass⟩, hvlan, hpcp⟩ := parseBss_some h
  refine ⟨info', rfl, fun hescaped => ?_⟩
  by_cases hmark : HasMark info.ssid
  · have hcut := gsub_ssid_cut hinfo.ssid hmark (' ' :: (info.authMode ++ ' ' :: (info.encType ++
      ' ' :: (info.passPhrase ++ ' ' :: restFields info))))
    rw [← bssFields, ← hssid] at hcut
    exact ⟨hcut.1, hcut.2, hvlan, hpcp⟩
  · have hsame : info'.ssid = info.ssid :=
      hssid.trans (gsub_ssidPattern hmark hinfo.authMode _)
    refine ⟨by rwa [hsame], ?_, hvlan, hpcp⟩
    rw [hsame]
    rintro ⟨u, d, hne, hd, hcode⟩
    rw [matchText_new_code hinfo hne hd hcode] at hnew
    rw [hpass, ← Option.some.inj hnew] at hescaped
    exact not_isEscaped_pass hinfo hne hd hescaped

end Fields

end Nwa50ax.Wifi.EasyMesh
