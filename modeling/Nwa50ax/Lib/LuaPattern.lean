import Mathlib.Data.List.DropRight
import Mathlib.Data.List.TakeDrop
import Mathlib.Tactic

/-!
# Lua patterns

The matcher of the Lua string library with its order of attempts: `+` and `*`
take as many characters as they can and give them back one by one, `-` takes as
few as it can.  Texts are lists of characters, and a match is described by its
captures and the text behind it.
-/

namespace LuaPattern

inductive Item
  | single (p : Char → Bool)
  /-- `+` and `*`. -/
  | maxRepeat (p : Char → Bool) (least : ℕ)
  /-- `-`. -/
  | minRepeat (p : Char → Bool)
  /-- `?`. -/
  | optional (p : Char → Bool)
  | openCapture
  | closeCapture
  /-- `$`. -/
  | atEnd

structure Match where
  captures : List (List Char)
  rest : List Char
deriving DecidableEq

/-- The match of a pattern at the start of a text; the open capture starts at
`start`. -/
def doMatch : List Item → List Char → List Char → Option Match
  | [], _, s => some ⟨[], s⟩
  | .single p :: pat, start, s =>
      match s with
      | [] => none
      | c :: s => if p c then doMatch pat start s else none
  | .maxRepeat p least :: pat, start, s =>
      let most := (s.takeWhile p).length
      ((List.range (most + 1 - least)).map (most - ·)).findSome? fun i =>
        doMatch pat start (s.drop i)
  | .minRepeat p :: pat, start, s =>
      (List.range ((s.takeWhile p).length + 1)).findSome? fun i => doMatch pat start (s.drop i)
  | .optional p :: pat, start, s =>
      match s with
      | [] => doMatch pat start []
      | c :: s' =>
          if p c then (doMatch pat start s').or (doMatch pat start s) else doMatch pat start s
  | .openCapture :: pat, _, s => doMatch pat s s
  | .closeCapture :: pat, start, s =>
      (doMatch pat start s).map fun m =>
        ⟨start.take (start.length - s.length) :: m.captures, m.rest⟩
  | .atEnd :: pat, start, s => if s = [] then doMatch pat start s else none

structure Found where
  before : List Char
  captures : List (List Char)
  rest : List Char
deriving DecidableEq

/-- `string.find` and `string.match` without `^`: the first place with a match. -/
def find (pat : List Item) : List Char → Option Found
  | [] => (doMatch pat [] []).map fun m => ⟨[], m.captures, m.rest⟩
  | c :: s =>
      match doMatch pat [] (c :: s) with
      | some m => some ⟨[], m.captures, m.rest⟩
      | none => (find pat s).map fun f => { f with before := c :: f.before }

def Found.text (f : Found) (s : List Char) : List Char :=
  (s.drop f.before.length).take (s.length - f.before.length - f.rest.length)

/-- `string.gsub` with a fixed replacement; the next `skip` characters belong to
the last match. -/
def gsubFrom (pat : List Item) (repl : List Char) : ℕ → List Char → List Char
  | _, [] => if (doMatch pat [] []).isSome then repl else []
  | skip + 1, _ :: s => gsubFrom pat repl skip s
  | 0, c :: s =>
      match doMatch pat [] (c :: s) with
      | some m =>
          if m.rest.length < (c :: s).length then
            repl ++ gsubFrom pat repl (s.length - m.rest.length) s
          else repl ++ c :: gsubFrom pat repl 0 s
      | none => c :: gsubFrom pat repl 0 s

def gsub (pat : List Item) (repl s : List Char) : List Char :=
  gsubFrom pat repl 0 s

/-- The captures of `string.gmatch`. -/
def gmatchFrom (pat : List Item) : ℕ → List Char → List (List (List Char))
  | _, [] => ((doMatch pat [] []).map Match.captures).toList
  | skip + 1, _ :: s => gmatchFrom pat skip s
  | 0, c :: s =>
      match doMatch pat [] (c :: s) with
      | some m => m.captures :: gmatchFrom pat (s.length - m.rest.length) s
      | none => gmatchFrom pat 0 s

def gmatch (pat : List Item) (s : List Char) : List (List (List Char)) :=
  gmatchFrom pat 0 s

/-! ## Classes and literal texts -/

/-- `%s`. -/
def isSpace (c : Char) : Bool :=
  c = ' ' ∨ c = '\t' ∨ c = '\n' ∨ c = '\x0b' ∨ c = '\x0c' ∨ c = '\r'

/-- `%S`. -/
def isNonspace (c : Char) : Bool := !isSpace c

/-- `%d`. -/
def isDigit (c : Char) : Bool := '0' ≤ c ∧ c ≤ '9'

/-- `%x`. -/
def isHex (c : Char) : Bool :=
  isDigit c ∨ ('a' ≤ c ∧ c ≤ 'f') ∨ ('A' ≤ c ∧ c ≤ 'F')

/-- `.`. -/
def isAny (_ : Char) : Bool := true

theorem isSpace_of_isDigit {c : Char} (h : isDigit c = true) : isSpace c = false := by
  by_contra hspace
  simp only [isSpace, Bool.not_eq_false, decide_eq_true_eq] at hspace
  rcases hspace with rfl | rfl | rfl | rfl | rfl | rfl <;> exact absurd h (by decide)

def lit (text : List Char) : List Item :=
  text.map fun c => .single (· == c)

/-! ## One item -/

section Items

variable {pat : List Item} {start s : List Char} {m : Match} {p : Char → Bool} {least : ℕ}

theorem doMatch_nil (start s : List Char) : doMatch [] start s = some ⟨[], s⟩ := rfl

theorem doMatch_single (c : Char) :
    doMatch (.single p :: pat) start (c :: s) = if p c then doMatch pat start s else none := rfl

theorem doMatch_maxRepeat :
    doMatch (.maxRepeat p least :: pat) start s =
      ((List.range ((s.takeWhile p).length + 1 - least)).map ((s.takeWhile p).length - ·)).findSome?
        fun i => doMatch pat start (s.drop i) := rfl

theorem doMatch_minRepeat :
    doMatch (.minRepeat p :: pat) start s =
      (List.range ((s.takeWhile p).length + 1)).findSome? fun i => doMatch pat start (s.drop i) := rfl

theorem doMatch_optional (c : Char) :
    doMatch (.optional p :: pat) start (c :: s) =
      if p c then (doMatch pat start s).or (doMatch pat start (c :: s))
      else doMatch pat start (c :: s) := rfl

theorem doMatch_close :
    doMatch (.closeCapture :: pat) start s = (doMatch pat start s).map fun m =>
      ⟨start.take (start.length - s.length) :: m.captures, m.rest⟩ := rfl

theorem doMatch_single_cons {c : Char} (hc : p c = true) :
    doMatch (.single p :: pat) start (c :: s) = doMatch pat start s := by
  rw [doMatch_single, if_pos hc]

theorem doMatch_single_some (h : doMatch (.single p :: pat) start s = some m) :
    ∃ c s', s = c :: s' ∧ p c = true ∧ doMatch pat start s' = some m := by
  cases s with
  | nil => cases h
  | cons c s =>
      rw [doMatch_single] at h
      split at h
      case isTrue hc => exact ⟨c, s, rfl, hc, h⟩
      case isFalse => cases h

theorem doMatch_openCapture : doMatch (.openCapture :: pat) start s = doMatch pat s s := rfl

theorem doMatch_closeCapture {text : List Char} :
    doMatch (.closeCapture :: pat) (text ++ s) s =
      (doMatch pat (text ++ s) s).map fun m => ⟨text :: m.captures, m.rest⟩ := by
  rw [doMatch_close, List.length_append, Nat.add_sub_cancel, List.take_left]

theorem doMatch_closeCapture_end (text : List Char) :
    doMatch [.closeCapture] text [] = some ⟨[text], []⟩ := by
  rw [doMatch_close, doMatch_nil, List.length_nil, Nat.sub_zero, List.take_length]
  rfl

theorem doMatch_closeCapture_some (h : doMatch (.closeCapture :: pat) start s = some m) :
    ∃ m', doMatch pat start s = some m' ∧ m.rest = m'.rest := by
  rw [doMatch_close, Option.map_eq_some_iff] at h
  obtain ⟨m', hm', rfl⟩ := h
  exact ⟨m', hm', rfl⟩

theorem takeWhile_run {run : List Char} (hrun : ∀ c ∈ run, p c = true)
    (hstop : ∀ c, s.head? = some c → p c = false) : (run ++ s).takeWhile p = run := by
  rw [List.takeWhile_append_of_pos hrun]
  cases s with
  | nil => simp
  | cons c s => simp [hstop c rfl]

theorem doMatch_maxRepeat_run {run : List Char} (hrun : ∀ c ∈ run, p c = true)
    (hstop : ∀ c, s.head? = some c → p c = false) (hleast : least ≤ run.length)
    (h : doMatch pat start s = some m) :
    doMatch (.maxRepeat p least :: pat) start (run ++ s) = some m := by
  rw [doMatch_maxRepeat, takeWhile_run hrun hstop]
  obtain ⟨more, hmore⟩ := Nat.exists_eq_add_of_le hleast
  rw [show run.length + 1 - least = more + 1 by omega, List.range_succ_eq_map, List.map_cons,
    List.findSome?_cons, Nat.sub_zero, List.drop_left, h]

theorem take_of_le_takeWhile {i : ℕ} (hi : i ≤ (s.takeWhile p).length) :
    ∀ c ∈ s.take i, p c = true := by
  intro c hc
  rw [← List.takeWhile_append_dropWhile (p := p) (l := s), List.take_append_of_le_length hi] at hc
  exact List.all_eq_true.mp List.all_takeWhile c (List.mem_of_mem_take hc)

theorem doMatch_maxRepeat_some (h : doMatch (.maxRepeat p least :: pat) start s = some m) :
    ∃ run rest, s = run ++ rest ∧ (∀ c ∈ run, p c = true) ∧ least ≤ run.length ∧
      doMatch pat start rest = some m := by
  rw [doMatch_maxRepeat] at h
  obtain ⟨i, hi, hmatch⟩ := List.exists_of_findSome?_eq_some h
  obtain ⟨j, hj, rfl⟩ := List.mem_map.mp hi
  have hj' := List.mem_range.mp hj
  have hlength := (List.takeWhile_prefix (l := s) p).length_le
  refine ⟨s.take ((s.takeWhile p).length - j), s.drop ((s.takeWhile p).length - j),
    (List.take_append_drop _ _).symm, take_of_le_takeWhile (Nat.sub_le _ _), ?_, hmatch⟩
  rw [List.length_take]
  omega

theorem doMatch_maxRepeat_none (hstop : ∀ c, s.head? = some c → p c = false) (hleast : 0 < least) :
    doMatch (.maxRepeat p least :: pat) start s = none := by
  by_contra hmatch
  obtain ⟨m, hm⟩ := Option.ne_none_iff_exists'.mp hmatch
  obtain ⟨run, rest, rfl, hrun, hlength, -⟩ := doMatch_maxRepeat_some hm
  cases run with
  | nil =>
      rw [List.length_nil] at hlength
      omega
  | cons c run =>
      have hc := hstop c rfl
      rw [hrun c List.mem_cons_self] at hc
      cases hc

theorem doMatch_maxRepeat_all (hall : ∀ c ∈ s, p c = true) (hleast : least ≤ s.length) :
    doMatch [.maxRepeat p least] start s = some ⟨[], []⟩ := by
  have hrun : doMatch [.maxRepeat p least] start (s ++ []) = some ⟨[], []⟩ :=
    doMatch_maxRepeat_run hall (by simp) hleast rfl
  rwa [List.append_nil] at hrun

theorem doMatch_lit (text : List Char) :
    doMatch (lit text ++ pat) start (text ++ s) = doMatch pat start s := by
  induction text with
  | nil => rfl
  | cons c text ih =>
      rw [List.cons_append, lit, List.map_cons, List.cons_append,
        doMatch_single_cons (p := (· == c)) (beq_self_eq_true c)]
      exact ih

theorem doMatch_lit_some {text : List Char} (h : doMatch (lit text ++ pat) start s = some m) :
    ∃ s', s = text ++ s' ∧ doMatch pat start s' = some m := by
  induction text generalizing s with
  | nil => exact ⟨s, rfl, h⟩
  | cons c text ih =>
      obtain ⟨c', s', rfl, hc, hrest⟩ := doMatch_single_some h
      obtain ⟨s'', rfl, hmatch⟩ := ih hrest
      rw [beq_iff_eq] at hc
      exact ⟨s'', by rw [hc, List.cons_append], hmatch⟩

theorem doMatch_singles {classes : List (Char → Bool)} {text : List Char}
    (h : List.Forall₂ (fun p c => p c = true) classes text) :
    doMatch (classes.map .single ++ pat) start (text ++ s) = doMatch pat start s := by
  induction h with
  | nil => rfl
  | cons hc _ ih =>
      rw [List.map_cons, List.cons_append, List.cons_append, doMatch_single_cons hc]
      exact ih

theorem doMatch_optional_skip (h : ∀ c, s.head? = some c → p c = false) :
    doMatch (.optional p :: pat) start s = doMatch pat start s := by
  cases s with
  | nil => rfl
  | cons c s =>
      rw [doMatch_optional, if_neg (by rw [h c rfl]; decide)]

theorem doMatch_optional_take {c : Char} (hc : p c = true) (h : doMatch pat start s = some m) :
    doMatch (.optional p :: pat) start (c :: s) = some m := by
  rw [doMatch_optional, if_pos hc, h, Option.some_or]

theorem doMatch_minRepeat_run {run : List Char} (hrun : ∀ c ∈ run, p c = true)
    (hfirst : ∀ u v, run = u ++ v → v ≠ [] → doMatch pat start (v ++ s) = none)
    (h : doMatch pat start s = some m) :
    doMatch (.minRepeat p :: pat) start (run ++ s) = some m := by
  have hmost : run.length ≤ ((run ++ s).takeWhile p).length := by
    rw [List.takeWhile_append_of_pos hrun, List.length_append]
    omega
  obtain ⟨more, hmore⟩ := Nat.exists_eq_add_of_le hmost
  rw [doMatch_minRepeat, hmore, Nat.add_assoc, List.range_add, List.findSome?_append]
  have hbefore : (List.range run.length).findSome?
      (fun i => doMatch pat start ((run ++ s).drop i)) = none := by
    rw [List.findSome?_eq_none_iff]
    intro i hi
    have hi' := List.mem_range.mp hi
    rw [List.drop_append_of_le_length hi'.le]
    refine hfirst (run.take i) (run.drop i) (List.take_append_drop i run).symm ?_
    exact List.ne_nil_of_length_pos (by rw [List.length_drop]; omega)
  rw [hbefore, Option.none_or, List.range_succ_eq_map, List.map_cons, List.findSome?_cons,
    Nat.add_zero, List.drop_left, h]

theorem doMatch_atEnd : doMatch (.atEnd :: pat) start [] = doMatch pat start [] := rfl

theorem doMatch_atEnd_cons {c : Char} : doMatch (.atEnd :: pat) start (c :: s) = none := rfl

end Items

/-! ## Searching -/

section Search

variable {pat : List Item} {s : List Char} {m : Match}

/-- There is no match that starts in `before`, a text in front of `s`. -/
def NoMatchIn (pat : List Item) (before s : List Char) : Prop :=
  ∀ u v, before = u ++ v → v ≠ [] → doMatch pat [] (v ++ s) = none

theorem NoMatchIn.tail {c : Char} {before : List Char} (h : NoMatchIn pat (c :: before) s) :
    NoMatchIn pat before s := fun u v huv hv => h (c :: u) v (by rw [huv, List.cons_append]) hv

theorem NoMatchIn.head {c : Char} {before : List Char} (h : NoMatchIn pat (c :: before) s) :
    doMatch pat [] (c :: (before ++ s)) = none :=
  h [] (c :: before) rfl (List.cons_ne_nil c before)

theorem noMatchIn_nil : NoMatchIn pat [] s := by
  intro u v huv hv
  exact absurd (List.append_eq_nil_iff.mp huv.symm).2 hv

theorem noMatchIn_singleton {c : Char} (h : doMatch pat [] (c :: s) = none) :
    NoMatchIn pat [c] s := by
  intro u v huv hv
  cases u with
  | nil =>
      rw [List.nil_append] at huv
      rw [← huv]
      exact h
  | cons c' u => exact absurd (List.append_eq_nil_iff.mp (List.cons.inj huv).2.symm).2 hv

theorem NoMatchIn.append {a b : List Char} (ha : NoMatchIn pat a (b ++ s))
    (hb : NoMatchIn pat b s) : NoMatchIn pat (a ++ b) s := by
  intro u v huv hv
  rcases List.append_eq_append_iff.mp huv with ⟨more, rfl, rfl⟩ | ⟨more, rfl, rfl⟩
  · exact hb more v rfl hv
  · by_cases hmore : more = []
    · rw [hmore, List.nil_append] at hv ⊢
      exact hb [] b rfl hv
    · have hnone := ha u more rfl hmore
      rwa [← List.append_assoc] at hnone

theorem find_nil :
    find pat [] = (doMatch pat [] []).map fun m => ⟨[], m.captures, m.rest⟩ := rfl

theorem find_cons (c : Char) :
    find pat (c :: s) =
      match doMatch pat [] (c :: s) with
      | some m => some ⟨[], m.captures, m.rest⟩
      | none => (find pat s).map fun f => { f with before := c :: f.before } := rfl

theorem find_first {before : List Char} (hbefore : NoMatchIn pat before s)
    (h : doMatch pat [] s = some m) :
    find pat (before ++ s) = some ⟨before, m.captures, m.rest⟩ := by
  induction before with
  | nil =>
      cases s with
      | nil => rw [List.append_nil, find_nil, h]; rfl
      | cons c s => rw [List.nil_append, find_cons, h]
  | cons c before ih =>
      rw [List.cons_append, find_cons, hbefore.head, ih hbefore.tail]
      rfl

theorem find_none (hs : NoMatchIn pat s []) (hnil : doMatch pat [] [] = none) :
    find pat s = none := by
  induction s with
  | nil => rw [find_nil, hnil]; rfl
  | cons c s ih =>
      have hhead := hs.head
      rw [List.append_nil] at hhead
      rw [find_cons, hhead, ih hs.tail]
      rfl

theorem find_ne_none {u : List Char} (h : doMatch pat [] s = some m) : find pat (u ++ s) ≠ none := by
  induction u with
  | nil =>
      rw [find_first noMatchIn_nil h]
      exact Option.some_ne_none _
  | cons c u ih =>
      rw [List.cons_append, find_cons]
      split
      case h_1 => exact Option.some_ne_none _
      case h_2 => simpa using ih

theorem find_some {f : Found} (h : find pat s = some f) :
    ∃ s', s = f.before ++ s' ∧ doMatch pat [] s' = some ⟨f.captures, f.rest⟩ ∧
      NoMatchIn pat f.before s' := by
  induction s generalizing f with
  | nil =>
      rw [find_nil, Option.map_eq_some_iff] at h
      obtain ⟨m, hm, rfl⟩ := h
      exact ⟨[], rfl, hm, noMatchIn_nil⟩
  | cons c s ih =>
      rw [find_cons] at h
      split at h
      case h_1 m hm =>
          obtain rfl := Option.some.inj h
          exact ⟨c :: s, rfl, hm, noMatchIn_nil⟩
      case h_2 hnone =>
          obtain ⟨f', hf', rfl⟩ := Option.map_eq_some_iff.mp h
          obtain ⟨s', hs', hmatch, hfirst⟩ := ih hf'
          refine ⟨s', by rw [hs', List.cons_append], hmatch, fun u v huv hv => ?_⟩
          cases u with
          | nil =>
              rw [List.nil_append] at huv
              rw [← huv, List.cons_append, ← hs']
              exact hnone
          | cons c' u =>
              rw [List.cons_append] at huv
              exact hfirst u v (List.cons.inj huv).2 hv

theorem Found.text_eq {before text rest : List Char} {captures : List (List Char)} :
    (⟨before, captures, rest⟩ : Found).text (before ++ (text ++ rest)) = text := by
  unfold Found.text
  dsimp only
  rw [List.drop_left]
  simp only [List.length_append]
  rw [show before.length + (text.length + rest.length) - before.length - rest.length = text.length
    by omega, List.take_left]

/-! ## All matches -/

variable {repl : List Char}

theorem gsub_cons (c : Char) :
    gsub pat repl (c :: s) =
      match doMatch pat [] (c :: s) with
      | some m =>
          if m.rest.length < (c :: s).length then
            repl ++ gsubFrom pat repl (s.length - m.rest.length) s
          else repl ++ c :: gsubFrom pat repl 0 s
      | none => c :: gsubFrom pat repl 0 s := rfl

theorem gsubFrom_skip (u s : List Char) :
    gsubFrom pat repl u.length (u ++ s) = gsubFrom pat repl 0 s := by
  induction u with
  | nil => rfl
  | cons c u ih => exact ih

theorem gsub_before {before : List Char} (h : NoMatchIn pat before s) :
    gsub pat repl (before ++ s) = before ++ gsub pat repl s := by
  induction before with
  | nil => rfl
  | cons c before ih =>
      rw [List.cons_append, gsub_cons, h.head, List.cons_append, ← ih h.tail]
      rfl

theorem gsub_match {text rest : List Char} {captures : List (List Char)} (htext : text ≠ [])
    (h : doMatch pat [] (text ++ rest) = some ⟨captures, rest⟩) :
    gsub pat repl (text ++ rest) = repl ++ gsub pat repl rest := by
  obtain ⟨c, text, rfl⟩ := List.exists_cons_of_ne_nil htext
  rw [List.cons_append] at h ⊢
  have hshort : rest.length < (c :: (text ++ rest)).length := by
    rw [List.length_cons, List.length_append]
    omega
  rw [gsub_cons, h]
  dsimp only
  rw [if_pos hshort, List.length_append, Nat.add_sub_cancel, gsubFrom_skip]
  rfl

theorem gsub_nil (hnil : doMatch pat [] [] = none) : gsub pat repl [] = [] := by
  change (if (doMatch pat [] []).isSome then repl else []) = []
  rw [hnil]
  rfl

theorem gsub_none (h : NoMatchIn pat s []) (hnil : doMatch pat [] [] = none) :
    gsub pat repl s = s := by
  have hbefore : gsub pat repl (s ++ []) = s ++ gsub pat repl [] := gsub_before h
  rwa [List.append_nil, gsub_nil hnil, List.append_nil] at hbefore

theorem gmatch_cons (c : Char) :
    gmatch pat (c :: s) =
      match doMatch pat [] (c :: s) with
      | some m => m.captures :: gmatchFrom pat (s.length - m.rest.length) s
      | none => gmatchFrom pat 0 s := rfl

theorem gmatchFrom_skip (u s : List Char) :
    gmatchFrom pat u.length (u ++ s) = gmatchFrom pat 0 s := by
  induction u with
  | nil => rfl
  | cons c u ih => exact ih

theorem gmatch_match {text rest : List Char} {captures : List (List Char)} (htext : text ≠ [])
    (h : doMatch pat [] (text ++ rest) = some ⟨captures, rest⟩) :
    gmatch pat (text ++ rest) = captures :: gmatch pat rest := by
  obtain ⟨c, text, rfl⟩ := List.exists_cons_of_ne_nil htext
  rw [List.cons_append] at h ⊢
  rw [gmatch_cons, h]
  dsimp only
  rw [List.length_append, Nat.add_sub_cancel, gmatchFrom_skip]
  rfl

theorem gmatch_nil (hnil : doMatch pat [] [] = none) : gmatch pat [] = [] := by
  change ((doMatch pat [] []).map Match.captures).toList = []
  rw [hnil]
  rfl

end Search

/-! ## Trimming -/

/-- `^%s*(.-)%s*$`. -/
def trimPattern : List Item :=
  [.maxRepeat isSpace 0, .openCapture, .minRepeat isAny, .closeCapture, .maxRepeat isSpace 0, .atEnd]

def trim (s : List Char) : List Char :=
  match doMatch trimPattern [] s with
  | some ⟨capture :: _, rest⟩ => capture ++ rest
  | _ => s

structure Trimmed (s : List Char) : Prop where
  head : ∀ c, s.head? = some c → isSpace c = false
  last : ∀ c, s.getLast? = some c → isSpace c = false

section Trim

variable {u v core start : List Char}

theorem spaces_of_doMatch {s : List Char} {m : Match}
    (h : doMatch [.closeCapture, .maxRepeat isSpace 0, .atEnd] start s = some m) :
    ∀ c ∈ s, isSpace c = true := by
  obtain ⟨m', hclose, -⟩ := doMatch_closeCapture_some h
  obtain ⟨run, rest, rfl, hrun, -, hend⟩ := doMatch_maxRepeat_some hclose
  cases rest with
  | nil => rwa [List.append_nil]
  | cons c rest => cases hend

theorem doMatch_trimmed (hcore : Trimmed core) (hv : ∀ c ∈ v, isSpace c = true) :
    doMatch [.openCapture, .minRepeat isAny, .closeCapture, .maxRepeat isSpace 0, .atEnd] []
      (core ++ v) = some ⟨[core], []⟩ := by
  rw [doMatch_openCapture]
  apply doMatch_minRepeat_run (fun _ _ => rfl)
  · intro a b hsplit hb
    by_contra hmatch
    obtain ⟨m, hm⟩ := Option.ne_none_iff_exists'.mp hmatch
    have hspace := spaces_of_doMatch hm (b.getLast hb) (List.mem_append_left v (List.getLast_mem hb))
    have hlast : core.getLast? = some (b.getLast hb) := by
      rw [hsplit, List.getLast?_append_of_ne_nil _ hb, List.getLast?_eq_some_getLast hb]
    rw [hcore.last _ hlast] at hspace
    exact absurd hspace (by decide)
  · have hrest : doMatch [.maxRepeat isSpace 0, .atEnd] (core ++ v) v = some ⟨[], []⟩ := by
      have hrun : doMatch [.maxRepeat isSpace 0, .atEnd] (core ++ v) (v ++ []) = some ⟨[], []⟩ :=
        doMatch_maxRepeat_run hv (by simp) (Nat.zero_le _) rfl
      rwa [List.append_nil] at hrun
    rw [doMatch_closeCapture, hrest]
    rfl

theorem trim_padded (hu : ∀ c ∈ u, isSpace c = true) (hcore : Trimmed core)
    (hv : ∀ c ∈ v, isSpace c = true) : trim (u ++ (core ++ v)) = core := by
  unfold trim trimPattern
  cases core with
  | nil =>
      have hspaces : ∀ c ∈ u ++ v, isSpace c = true := by
        intro c hc
        rcases List.mem_append.mp hc with hc | hc
        · exact hu c hc
        · exact hv c hc
      have hnone : ∀ c ∈ ([] : List Char), isSpace c = true := by simp
      have hmatch : doMatch _ [] ((u ++ v) ++ ([] ++ [])) = some ⟨[[]], []⟩ :=
        doMatch_maxRepeat_run hspaces (by simp) (Nat.zero_le _) (doMatch_trimmed hcore hnone)
      rw [List.append_nil, List.append_nil] at hmatch
      rw [List.nil_append, hmatch]
      rfl
  | cons c core =>
      have hstop : ∀ c', (c :: core ++ v).head? = some c' → isSpace c' = false := by
        intro c' hc'
        exact hcore.head c' hc'
      rw [doMatch_maxRepeat_run hu hstop (Nat.zero_le _) (doMatch_trimmed hcore hv)]
      exact List.append_nil _

theorem exists_trimmed (s : List Char) :
    ∃ u core v, s = u ++ (core ++ v) ∧ (∀ c ∈ u, isSpace c = true) ∧ Trimmed core ∧
      ∀ c ∈ v, isSpace c = true := by
  refine ⟨s.takeWhile isSpace, (s.dropWhile isSpace).rdropWhile isSpace,
    (s.dropWhile isSpace).rtakeWhile isSpace, ?_, ?_, ⟨?_, ?_⟩, ?_⟩
  · rw [List.rdropWhile_append_rtakeWhile, List.takeWhile_append_dropWhile]
  · exact List.all_eq_true.mp List.all_takeWhile
  · intro c hc
    have hrest : (s.dropWhile isSpace).head? = some c := by
      obtain ⟨more, hmore⟩ := List.rdropWhile_prefix isSpace (s.dropWhile isSpace)
      rw [← hmore, List.head?_append, hc]
      rfl
    have hnot := List.head?_dropWhile_not isSpace s
    rw [hrest] at hnot
    exact hnot
  · intro c hc
    have hne : (s.dropWhile isSpace).rdropWhile isSpace ≠ [] := by
      intro hnil
      rw [hnil] at hc
      cases hc
    rw [List.getLast?_eq_some_getLast hne] at hc
    rw [← Option.some.inj hc]
    exact Bool.eq_false_iff.mpr (List.rdropWhile_last_not isSpace _ hne)
  · intro c hc
    exact List.mem_rtakeWhile_imp hc

end Trim

end LuaPattern
