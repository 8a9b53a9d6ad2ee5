import Nwa50ax.Wifi.EasyMesh

/-!
# Escaped texts and the patterns of the loader

An escaped text has no white space but spaces, and every space follows a backslash.
Each pattern of `load_easymesh_bss_cfgs` is described by the texts that it matches.
-/

namespace Nwa50ax.Wifi.EasyMesh

open LuaPattern

/-! ## Escaped texts -/

structure IsEscaped (t : Text) : Prop where
  head : t.head? ≠ some ' '
  space : ∀ c ∈ t, isSpace c = true → c = ' '
  backslash : ∀ u v, t = u ++ ' ' :: v → ∃ u', u = u' ++ ['\\']

theorem isEscaped_nil : IsEscaped [] := by
  constructor
  · simp
  · simp
  · intro u v huv
    simp at huv

theorem IsEscaped.cons {t : Text} (h : IsEscaped t) {c : Char} (hc : isSpace c = false) :
    IsEscaped (c :: t) := by
  have hne : c ≠ ' ' := by
    rintro rfl
    exact absurd hc (by decide)
  constructor
  · simpa using hne
  · intro c' hc' hspace
    rcases List.mem_cons.mp hc' with rfl | hc'
    · rw [hc] at hspace
      cases hspace
    · exact h.space c' hc' hspace
  · intro u v huv
    cases u with
    | nil => exact absurd (List.cons.inj huv).1 hne
    | cons c' u =>
        obtain ⟨u', rfl⟩ := h.backslash u v (List.cons.inj huv).2
        exact ⟨c' :: u', rfl⟩

theorem IsEscaped.cons_space {t : Text} (h : IsEscaped t) : IsEscaped ('\\' :: ' ' :: t) := by
  constructor
  · simp
  · intro c hc hspace
    simp only [List.mem_cons] at hc
    rcases hc with rfl | rfl | hc
    · exact absurd hspace (by decide)
    · rfl
    · exact h.space c hc hspace
  · intro u v huv
    cases u with
    | nil => exact absurd (List.cons.inj huv).1 (by decide)
    | cons c u =>
        obtain ⟨rfl, hrest⟩ := List.cons.inj huv
        cases u with
        | nil => exact ⟨[], rfl⟩
        | cons c u =>
            obtain ⟨u', rfl⟩ := h.backslash u v (List.cons.inj hrest).2
            exact ⟨'\\' :: c :: u', rfl⟩

theorem gsub_spaces_cons (c : Char) (s : Text) :
    (isSpace c = true ∧ ∃ rest, rest.length ≤ s.length ∧
      gsub [.maxRepeat isSpace 1] ['\\', ' '] (c :: s) =
        '\\' :: ' ' :: gsub [.maxRepeat isSpace 1] ['\\', ' '] rest) ∨
    (isSpace c = false ∧ gsub [.maxRepeat isSpace 1] ['\\', ' '] (c :: s) =
      c :: gsub [.maxRepeat isSpace 1] ['\\', ' '] s) := by
  by_cases hc : isSpace c = true
  · left
    -- The whole run of white space is one match.
    have hrun : ∀ c' ∈ (c :: s).takeWhile isSpace, isSpace c' = true :=
      List.all_eq_true.mp List.all_takeWhile
    have hne : (c :: s).takeWhile isSpace ≠ [] := by
      rw [List.takeWhile_cons_of_pos hc]
      exact List.cons_ne_nil c _
    have hstop : ∀ c', ((c :: s).dropWhile isSpace).head? = some c' → isSpace c' = false := by
      intro c' hc'
      have hnot := List.head?_dropWhile_not isSpace (c :: s)
      rw [hc'] at hnot
      exact hnot
    have hmatch : doMatch [.maxRepeat isSpace 1] []
        ((c :: s).takeWhile isSpace ++ (c :: s).dropWhile isSpace) =
        some ⟨[], (c :: s).dropWhile isSpace⟩ :=
      doMatch_maxRepeat_run hrun hstop (List.length_pos_iff.mpr hne) rfl
    have hgsub : gsub [.maxRepeat isSpace 1] ['\\', ' ']
        ((c :: s).takeWhile isSpace ++ (c :: s).dropWhile isSpace) = _ := gsub_match hne hmatch
    rw [List.takeWhile_append_dropWhile] at hgsub
    refine ⟨hc, (c :: s).dropWhile isSpace, ?_, hgsub⟩
    rw [List.dropWhile_cons_of_pos hc]
    exact (List.dropWhile_suffix isSpace).length_le
  · right
    have hc' := Bool.eq_false_iff.mpr hc
    have hnone : NoMatchIn [.maxRepeat isSpace 1] [c] s :=
      noMatchIn_singleton (doMatch_maxRepeat_none (by simpa using hc') Nat.one_pos)
    exact ⟨hc', gsub_before hnone⟩

theorem isEscaped_gsub (s : Text) : IsEscaped (gsub [.maxRepeat isSpace 1] ['\\', ' '] s) := by
  induction hlength : s.length using Nat.strong_induction_on generalizing s with
  | _ n ih =>
      cases s with
      | nil =>
          rw [gsub_nil rfl]
          exact isEscaped_nil
      | cons c s =>
          rw [List.length_cons] at hlength
          rcases gsub_spaces_cons c s with ⟨-, rest, hrest, hgsub⟩ | ⟨hc, hgsub⟩
          · rw [hgsub]
            exact (ih rest.length (by omega) rest rfl).cons_space
          · rw [hgsub]
            exact (ih s.length (by omega) s rfl).cons hc

theorem isEscaped_escape (raw : Text) : IsEscaped (escape raw) := isEscaped_gsub _

theorem length_gsub_backslash (s : Text) :
    s.length ≤ (gsub (lit ['\\']) ['\\', '\\'] s).length := by
  induction s with
  | nil => exact Nat.zero_le _
  | cons c s ih =>
      by_cases hc : c = '\\'
      · have hmatch : doMatch (lit ['\\']) [] (['\\'] ++ s) = some ⟨[], s⟩ := rfl
        have hgsub : gsub (lit ['\\']) ['\\', '\\'] (['\\'] ++ s) = _ :=
          gsub_match (List.cons_ne_nil _ _) hmatch
        rw [hc, ← List.singleton_append, hgsub, List.length_append, List.length_append]
        simpa using Nat.add_le_add (by decide : 1 ≤ 2) ih
      · have hnone : NoMatchIn (lit ['\\']) [c] s := by
          apply noMatchIn_singleton
          by_contra hmatch
          obtain ⟨m, hm⟩ := Option.ne_none_iff_exists'.mp hmatch
          obtain ⟨c', s', hsplit, hc', -⟩ := doMatch_single_some hm
          rw [beq_iff_eq] at hc'
          exact hc ((List.cons.inj hsplit).1.trans hc')
        rw [show gsub (lit ['\\']) ['\\', '\\'] (c :: s) =
          c :: gsub (lit ['\\']) ['\\', '\\'] s from gsub_before hnone, List.length_cons,
          List.length_cons]
        omega

theorem gsub_spaces_ne_nil {s : Text} (h : s ≠ []) :
    gsub [.maxRepeat isSpace 1] ['\\', ' '] s ≠ [] := by
  obtain ⟨c, s, rfl⟩ := List.exists_cons_of_ne_nil h
  rcases gsub_spaces_cons c s with ⟨-, rest, -, hgsub⟩ | ⟨-, hgsub⟩ <;> rw [hgsub] <;> simp

theorem escape_ne_nil {raw : Text} (h : raw ≠ []) : escape raw ≠ [] := by
  apply gsub_spaces_ne_nil
  apply List.ne_nil_of_length_pos
  exact lt_of_lt_of_le (List.length_pos_iff.mpr h) (length_gsub_backslash raw)

theorem two_le_length_escape {raw : Text} (h : 2 ≤ raw.length) : 2 ≤ (escape raw).length := by
  unfold escape
  have hlength := h.trans (length_gsub_backslash raw)
  generalize gsub (lit ['\\']) ['\\', '\\'] raw = s at hlength ⊢
  cases s with
  | nil => simp at hlength
  | cons c s =>
      rcases gsub_spaces_cons c s with ⟨-, rest, -, hgsub⟩ | ⟨-, hgsub⟩ <;> rw [hgsub]
      · simp
      · have hne : s ≠ [] := by
          rintro rfl
          simp at hlength
        have hpos := List.length_pos_iff.mpr (gsub_spaces_ne_nil hne)
        rw [List.length_cons]
        omega

/-! ## Texts with spaces -/

theorem append_space_cases {w s d t : Text} (h : w ++ ' ' :: s = d ++ ' ' :: t) (hd : ' ' ∉ d) :
    (w = d ∧ s = t) ∨ ∃ w', w = d ++ ' ' :: w' := by
  rcases List.append_eq_append_iff.mp h with ⟨more, rfl, hmore⟩ | ⟨more, rfl, hmore⟩
  · cases more with
    | nil =>
        left
        exact ⟨(List.append_nil w).symm, (List.cons.inj hmore).2⟩
    | cons c more =>
        rw [← (List.cons.inj hmore).1] at hd
        exact absurd (List.mem_append_right w List.mem_cons_self) hd
  · cases more with
    | nil =>
        left
        exact ⟨List.append_nil d, (List.cons.inj hmore).2.symm⟩
    | cons c more =>
        right
        rw [← (List.cons.inj hmore).1]
        exact ⟨more, rfl⟩

theorem space_notMem_of_digits {d : Text} (h : ∀ c ∈ d, isDigit c = true) : ' ' ∉ d :=
  fun hmem => absurd (h ' ' hmem) (by decide)

theorem space_notMem_of_nonspace {d : Text} (h : ∀ c ∈ d, isNonspace c = true) : ' ' ∉ d :=
  fun hmem => absurd (h ' ' hmem) (by decide)

theorem IsEscaped.not_digit_space {t u v : Text} {c : Char} (h : IsEscaped t)
    (hc : isDigit c = true) (ht : t = u ++ c :: ' ' :: v) : False := by
  have hsplit : t = (u ++ [c]) ++ ' ' :: v := by rw [ht, List.append_assoc]; rfl
  obtain ⟨u', hu'⟩ := h.backslash _ _ hsplit
  obtain ⟨-, hlast⟩ := List.append_inj' hu' rfl
  rw [(List.cons.inj hlast).1] at hc
  exact absurd hc (by decide)

theorem IsEscaped.not_digits_space {t u d v : Text} (h : IsEscaped t) (hne : d ≠ [])
    (hd : ∀ c ∈ d, isDigit c = true) (ht : t = u ++ (d ++ ' ' :: v)) : False := by
  obtain ⟨d', c, rfl⟩ := List.eq_nil_or_concat' d |>.resolve_left hne
  have hc := hd c (List.mem_append_right d' (List.mem_singleton.mpr rfl))
  exact h.not_digit_space (u := u ++ d') (v := v) hc (by rw [ht]; simp)

/-! ## What the patterns match -/

section Patterns

variable {pat : List Item} {start s : Text} {m : Match}

theorem hexPattern_some (h : doMatch (hexPattern pat) start s = some m) :
    ∃ d t, d ≠ [] ∧ (∀ c ∈ d, isDigit c = true) ∧ s = '0' :: 'x' :: (d ++ ' ' :: t) ∧
      doMatch pat start t = some m := by
  obtain ⟨s', rfl, hdigits⟩ := doMatch_lit_some h
  obtain ⟨d, rest, rfl, hd, hleast, hspace⟩ := doMatch_maxRepeat_some hdigits
  obtain ⟨c, t, rfl, hc, hrest⟩ := doMatch_single_some hspace
  rw [beq_iff_eq] at hc
  subst hc
  exact ⟨d, t, List.ne_nil_of_length_pos hleast, hd, rfl, hrest⟩

theorem hexPattern_run {d : Text} (hne : d ≠ []) (hd : ∀ c ∈ d, isDigit c = true)
    (h : doMatch pat start s = some m) :
    doMatch (hexPattern pat) start ('0' :: 'x' :: (d ++ ' ' :: s)) = some m := by
  rw [hexPattern, show '0' :: 'x' :: (d ++ ' ' :: s) = ['0', 'x'] ++ (d ++ ' ' :: s) from rfl,
    doMatch_lit]
  apply doMatch_maxRepeat_run hd _ (List.length_pos_iff.mpr hne)
  · rwa [doMatch_single_cons (p := (· == ' ')) rfl]
  · intro c hc
    obtain rfl := Option.some.inj hc
    decide

theorem ssidPattern_some (h : doMatch ssidPattern start s = some m) :
    ∃ c d t, isSpace c = true ∧ isDigit d = true ∧ s = c :: '0' :: 'x' :: d :: t := by
  rw [ssidPattern, doMatch_openCapture] at h
  obtain ⟨c, s', rfl, hc, hrest⟩ := doMatch_single_some h
  obtain ⟨s'', rfl, hdigits⟩ := doMatch_lit_some hrest
  obtain ⟨run, rest, rfl, hrun, hleast, -⟩ := doMatch_maxRepeat_some hdigits
  cases run with
  | nil => simp at hleast
  | cons d run => exact ⟨c, d, run ++ rest, hc, hrun d List.mem_cons_self, rfl⟩

theorem ssidPattern_match (start : Text) {c d : Char} (hc : isSpace c = true)
    (hd : isDigit d = true) (t : Text) :
    ∃ captures, doMatch ssidPattern start (c :: '0' :: 'x' :: d :: t) = some ⟨captures, []⟩ := by
  have hrun : ∀ c' ∈ (d :: t).takeWhile isDigit, isDigit c' = true :=
    List.all_eq_true.mp List.all_takeWhile
  have hpos : 1 ≤ ((d :: t).takeWhile isDigit).length := by
    rw [List.takeWhile_cons_of_pos hd, List.length_cons]
    exact Nat.le_add_left 1 _
  have hstop : ∀ c', ((d :: t).dropWhile isDigit).head? = some c' → isDigit c' = false := by
    intro c' hc'
    have hnot := List.head?_dropWhile_not isDigit (d :: t)
    rw [hc'] at hnot
    exact hnot
  obtain ⟨captures, hclose⟩ : ∃ captures, doMatch [.closeCapture, .maxRepeat isAny 0]
      (c :: '0' :: 'x' :: d :: t) ((d :: t).dropWhile isDigit) = some ⟨captures, []⟩ := by
    have hall : doMatch [.maxRepeat isAny 0] (c :: '0' :: 'x' :: d :: t)
        ((d :: t).dropWhile isDigit) = some ⟨[], []⟩ :=
      doMatch_maxRepeat_all (fun _ _ => rfl) (Nat.zero_le _)
    rw [doMatch, hall]
    exact ⟨_, rfl⟩
  refine ⟨captures, ?_⟩
  rw [ssidPattern, doMatch_openCapture, doMatch_single_cons hc,
    show '0' :: 'x' :: d :: t = ['0', 'x'] ++ (d :: t) from rfl, doMatch_lit]
  have hmatch := doMatch_maxRepeat_run hrun hstop hpos hclose
  rwa [List.takeWhile_append_dropWhile] at hmatch

structure IsRest (bh fh : Char) (hidden fhVlanId primVlan defPCP : Text) : Prop where
  bh : isDigit bh = true
  fh : isDigit fh = true
  hidden : hidden ≠ [] ∧ ∀ c ∈ hidden, isNonspace c = true
  fhVlanId : fhVlanId ≠ [] ∧ ∀ c ∈ fhVlanId, isDigit c = true
  primVlan : primVlan ≠ [] ∧ ∀ c ∈ primVlan, isNonspace c = true
  defPCP : defPCP ≠ [] ∧ ∀ c ∈ defPCP, isNonspace c = true

theorem restPattern_some (h : doMatch restPattern start s = some m) :
    ∃ bh fh hidden fhVlanId primVlan defPCP, IsRest bh fh hidden fhVlanId primVlan defPCP ∧
      s = bh :: ' ' :: fh :: ' ' :: (hidden ++ ' ' :: (fhVlanId ++ ' ' :: (primVlan ++
        ' ' :: (defPCP ++ m.rest)))) := by
  obtain ⟨bh, s1, rfl, hbh, h1⟩ := doMatch_single_some h
  obtain ⟨c1, s2, rfl, hc1, h2⟩ := doMatch_single_some h1
  obtain ⟨fh, s3, rfl, hfh, h3⟩ := doMatch_single_some h2
  obtain ⟨c2, s4, rfl, hc2, h4⟩ := doMatch_single_some h3
  obtain ⟨hidden, s5, rfl, hhidden, hhidden', h5⟩ := doMatch_maxRepeat_some h4
  obtain ⟨c3, s6, rfl, hc3, h6⟩ := doMatch_single_some h5
  obtain ⟨vlan, s7, rfl, hvlan, hvlan', h7⟩ := doMatch_maxRepeat_some h6
  obtain ⟨c4, s8, rfl, hc4, h8⟩ := doMatch_single_some h7
  obtain ⟨prim, s9, rfl, hprim, hprim', h9⟩ := doMatch_maxRepeat_some h8
  obtain ⟨c5, s10, rfl, hc5, h10⟩ := doMatch_single_some h9
  obtain ⟨pcp, s11, rfl, hpcp, hpcp', hend⟩ := doMatch_maxRepeat_some h10
  rw [beq_iff_eq] at hc1 hc2 hc3 hc4 hc5
  subst hc1 hc2 hc3 hc4 hc5
  obtain rfl := Option.some.inj hend
  exact ⟨bh, fh, hidden, vlan, prim, pcp, ⟨hbh, hfh, ⟨List.ne_nil_of_length_pos hhidden', hhidden⟩,
    ⟨List.ne_nil_of_length_pos hvlan', hvlan⟩, ⟨List.ne_nil_of_length_pos hprim', hprim⟩,
    List.ne_nil_of_length_pos hpcp', hpcp⟩, rfl⟩

theorem restPattern_match {bh fh : Char} {hidden fhVlanId primVlan defPCP : Text}
    (h : IsRest bh fh hidden fhVlanId primVlan defPCP) :
    doMatch restPattern start (bh :: ' ' :: fh :: ' ' :: (hidden ++ ' ' :: (fhVlanId ++
      ' ' :: (primVlan ++ ' ' :: defPCP)))) = some ⟨[], []⟩ := by
  have hspace : ∀ (p : Char → Bool) (t : Text) (c : Char), p ' ' = false →
      (' ' :: t).head? = some c → p c = false := by
    intro p t c hp hc
    obtain rfl := Option.some.inj hc
    exact hp
  rw [restPattern, doMatch_single_cons h.bh, doMatch_single_cons (p := (· == ' ')) rfl,
    doMatch_single_cons h.fh, doMatch_single_cons (p := (· == ' ')) rfl]
  apply doMatch_maxRepeat_run h.hidden.2 (hspace _ _ · rfl)
    (List.length_pos_iff.mpr h.hidden.1)
  rw [doMatch_single_cons (p := (· == ' ')) rfl]
  apply doMatch_maxRepeat_run h.fhVlanId.2 (hspace _ _ · rfl)
    (List.length_pos_iff.mpr h.fhVlanId.1)
  rw [doMatch_single_cons (p := (· == ' ')) rfl]
  apply doMatch_maxRepeat_run h.primVlan.2 (hspace _ _ · rfl)
    (List.length_pos_iff.mpr h.primVlan.1)
  rw [doMatch_single_cons (p := (· == ' ')) rfl]
  exact doMatch_maxRepeat_all h.defPCP.2 (List.length_pos_iff.mpr h.defPCP.1)

end Patterns

end Nwa50ax.Wifi.EasyMesh
