import Nwa50ax.Http.Result
import Nwa50ax.Http.RoundTrip

/-!
# Parsing any payload

What the parser does with a payload that need not be an encoded form.  The
texts it takes for parts are given by the payload alone; if each of them ends
with a line end and names its field, the parser stays inside the payload and
every form value has a name and a range in the payload.
-/

namespace Nwa50ax.Http

open CString StateProgram
open Tcp (U16 U32 CbData)

/-! ## The parts of a payload -/

/-- The texts that are taken for parts, for a payload that starts with a
delimiter; the delimiter itself is not looked at. -/
def partTexts (delim : List UInt8) : ℕ → List UInt8 → List (List UInt8)
  | 0, _ => []
  | count + 1, text =>
      let rest := text.drop delim.length
      if crlf <+: rest then
        match find delim (rest.drop 2) with
        | none => []
        | some len => (rest.drop 2).take len :: partTexts delim count ((rest.drop 2).drop len)
      else
        []

def partString (part : List UInt8) : List UInt8 :=
  (part.take (part.length - 2)).takeWhile (· ≠ 0)

/-- A part ends with a line end, and its header has a name. -/
structure Proper (part : List UInt8) : Prop where
  ended : crlf <:+ part
  named : ∀ i, find (crlf ++ crlf) (partString part) = some i →
    nameStr <:+: (partString part).take i

instance (part : List UInt8) : Decidable (Proper part) :=
  decidable_of_iff (crlf <:+ part ∧ ∀ i ∈ find (crlf ++ crlf) (partString part),
    nameStr <:+: (partString part).take i) ⟨fun h => ⟨h.1, h.2⟩, fun h => ⟨h.ended, h.named⟩⟩

section Split

variable {delim : List UInt8}

theorem prefix_append_zero {pat text : List UInt8} (hpat : 0 ∉ pat) :
    pat <+: text ++ [0] ↔ pat <+: text := by
  refine ⟨fun h => ?_, fun h => h.trans (List.prefix_append ..)⟩
  rcases Nat.lt_or_ge text.length pat.length with hlong | hshort
  · exact absurd (mem_of_prefix_append_cons text h hlong) hpat
  · exact List.prefix_of_prefix_length_le h (List.prefix_append ..) hshort

theorem splitFormdata_break (hne : delim ≠ []) (past : List UInt8) {text payload : List UInt8}
    (hpayload : payload = past ++ text) (hroom : delim.length ≤ text.length)
    (hsize : payload.length < 2 ^ 32)
    (hbreak : crlf <+: text.drop delim.length → find delim (text.drop (delim.length + 2)) = none) :
    splitFormdata delim payload.length (payload ++ [0]) past.length = .ok none := by
  have hdrop : ∀ i ≤ text.length, (payload ++ [0]).drop (past.length + i) = text.drop i ++ [0] := by
    intro i hi
    rw [hpayload, List.append_assoc, ← List.drop_drop, List.drop_left,
      List.drop_append_of_le_length hi]
  have hmore : agree (payload ++ [0]) (past.length + delim.length) crlf =
      some (decide (crlf <+: text.drop delim.length)) := by
    rw [agree_of_zero (by decide) (by rw [hdrop _ hroom]; simp), hdrop _ hroom]
    simp only [prefix_append_zero (show 0 ∉ crlf by decide)]
  unfold splitFormdata
  dsimp only
  rw [hmore]
  by_cases hcrlf : crlf <+: text.drop delim.length
  · have hlen := hcrlf.length_le
    rw [List.length_drop, crlf_length] at hlen
    have hpos : past.length + delim.length + 2 = past.length + (delim.length + 2) := by omega
    have htotal : payload.length = past.length + text.length := by rw [hpayload, List.length_append]
    have hsearch : memstr (payload ++ [0]) delim (past.length + delim.length + 2)
        (ptrDiff payload.length (past.length + delim.length + 2)).toNat = some none := by
      rw [ptrDiff_toNat (by omega) hsize, memstr_eq hne _ (by simp; omega), hpos,
        hdrop _ (by omega), List.take_left' (by rw [List.length_drop]; omega), hbreak hcrlf]
      rfl
    rw [decide_eq_true hcrlf, inside_some, ok_bind, if_pos rfl, hsearch]
    rfl
  · rw [decide_eq_false hcrlf]
    rfl

/-- The form data stand one behind the other, each with a zero at its end. -/
inductive Slices (mem : List UInt8) : ℕ → List Formdata → List (List UInt8) → Prop
  | nil (lo : ℕ) : Slices mem lo [] []
  | cons {lo : ℕ} {data : Formdata} {datas : List Formdata} {body rest : List UInt8}
      {bodies : List (List UInt8)} (hlo : lo ≤ data.start)
      (hstop : data.stop = data.start + body.length)
      (hslice : mem.drop data.start = body ++ 0 :: rest)
      (hlater : Slices mem (data.stop + 1) datas bodies) :
      Slices mem lo (data :: datas) (body :: bodies)

theorem Slices.mono {mem : List UInt8} {lo lo' : ℕ} {datas : List Formdata}
    {bodies : List (List UInt8)} (h : Slices mem lo datas bodies) (hle : lo' ≤ lo) :
    Slices mem lo' datas bodies := by
  cases h with
  | nil => exact .nil lo'
  | cons hlo hstop hslice hlater => exact .cons (hle.trans hlo) hstop hslice hlater

theorem Slices.congr {mem mem' : List UInt8} {lo : ℕ} {datas : List Formdata}
    {bodies : List (List UInt8)} (h : Slices mem lo datas bodies)
    (hsame : mem'.drop lo = mem.drop lo) : Slices mem' lo datas bodies := by
  induction h with
  | nil lo => exact .nil lo
  | @cons lo data datas body rest bodies hlo hstop hslice _ ih =>
      have hfrom : ∀ i, lo ≤ i → mem'.drop i = mem.drop i := by
        intro i hi
        rw [show i = lo + (i - lo) by omega, ← List.drop_drop, ← List.drop_drop, hsame]
      exact .cons hlo hstop ((hfrom data.start hlo).trans hslice) (ih (hfrom _ (by omega)))

def partBody (part : List UInt8) : List UInt8 :=
  part.take (part.length - 2)

theorem partBody_append (body : List UInt8) : partBody (body ++ crlf) = body := by
  unfold partBody
  rw [List.length_append, crlf_length, Nat.add_sub_cancel, List.take_left' rfl]

structure Splits (past payload : List UInt8) (bodies : List (List UInt8)) (datas : List Formdata)
    (mem : List UInt8) : Prop where
  length : mem.length = payload.length + 1
  zero : mem[payload.length]? = some 0
  behind : past <+: mem
  slices : Slices mem past.length datas bodies

theorem Splits.cons {past opening body payload payload' : List UInt8} {bodies : List (List UInt8)}
    {datas : List Formdata} {mem : List UInt8}
    (h : Splits (past ++ (opening ++ crlf ++ body ++ [0, 10])) payload' bodies datas mem)
    (hsame : payload'.length = payload.length) :
    Splits past payload (body :: bodies) (⟨past.length + opening.length + 2,
      past.length + opening.length + 2 + body.length⟩ :: datas) mem := by
  obtain ⟨later, hlater⟩ := h.behind
  have hslice : mem.drop (past.length + opening.length + 2) = body ++ 0 :: 10 :: later := by
    rw [← hlater, show past ++ (opening ++ crlf ++ body ++ [0, 10]) ++ later =
      (past ++ opening ++ crlf) ++ (body ++ 0 :: 10 :: later) by simp]
    exact List.drop_left' (by simp only [List.length_append, crlf_length])
  refine ⟨hsame ▸ h.length, hsame ▸ h.zero, (List.prefix_append ..).trans h.behind, ?_⟩
  refine .cons (by dsimp only; omega) rfl hslice (h.slices.mono ?_)
  simp only [List.length_append, crlf_length, List.length_cons, List.length_nil]
  omega

theorem part_split {text : List UInt8} (hcrlf : crlf <+: text.drop delim.length) {len : ℕ}
    (hfind : find delim ((text.drop delim.length).drop 2) = some len) :
    ∃ rest, ((text.drop delim.length).drop 2).drop len = delim ++ rest ∧
      text = text.take delim.length ++ crlf ++ ((text.drop delim.length).drop 2).take len ++
        (delim ++ rest) := by
  obtain ⟨after, hafter⟩ := hcrlf
  obtain ⟨-, ⟨rest, hrest⟩, -⟩ := find_eq_some.mp hfind
  have hdrop : (text.drop delim.length).drop 2 = after := by
    rw [← hafter]
    exact List.drop_left' crlf_length
  refine ⟨rest, hrest.symm, ?_⟩
  rw [hrest, List.append_assoc, List.take_append_drop, hdrop, List.append_assoc, hafter,
    List.take_append_drop]

theorem splitAll_safe (hne : delim ≠ []) (count : ℕ) :
    ∀ (past text : List UInt8) {payload : List UInt8}, payload = past ++ text →
      delim.length ≤ text.length → payload.length < 2 ^ 32 →
      (∀ part ∈ partTexts delim count text, crlf <:+ part) →
      ∃ datas mem, splitAll delim payload.length count (payload ++ [0]) past.length =
          .ok (datas, mem) ∧
        Splits past payload ((partTexts delim count text).map partBody) datas mem := by
  have hstays : ∀ past payload : List UInt8, past <+: payload →
      Splits past payload [] [] (payload ++ [0]) := by
    intro past payload hpast
    refine ⟨by simp, by simp, hpast.trans (List.prefix_append ..), .nil _⟩
  induction count with
  | zero =>
      intro past text payload hpayload _ _ _
      exact ⟨_, _, rfl, hstays past payload (hpayload ▸ List.prefix_append ..)⟩
  | succ count ih =>
      intro past text payload hpayload hroom hsize hparts
      have hend : ∀ hbreak : crlf <+: text.drop delim.length →
          find delim (text.drop (delim.length + 2)) = none,
          splitAll delim payload.length (count + 1) (payload ++ [0]) past.length =
            .ok ([], payload ++ [0]) := by
        intro hbreak
        unfold splitAll
        rw [splitFormdata_break hne past hpayload hroom hsize hbreak]
        rfl
      unfold partTexts at hparts ⊢
      dsimp only at hparts ⊢
      by_cases hcrlf : crlf <+: text.drop delim.length
      · rw [if_pos hcrlf] at hparts ⊢
        cases hfind : find delim ((text.drop delim.length).drop 2) with
        | none =>
            refine ⟨[], payload ++ [0], hend fun _ => ?_, ?_⟩
            · rw [← List.drop_drop]
              exact hfind
            · exact hstays past payload (hpayload ▸ List.prefix_append ..)
        | some len =>
            rw [hfind] at hparts
            dsimp only at hparts ⊢
            obtain ⟨rest, hrest, htext⟩ := part_split hcrlf hfind
            obtain ⟨body, hbody⟩ := hparts _ List.mem_cons_self
            have hlater := fun part hpart => hparts part (List.mem_cons_of_mem _ hpart)
            have hlen : len = body.length + 2 := by
              have hle := (find_eq_some.mp hfind).1
              have hcount := congrArg List.length hbody
              rw [List.length_append, crlf_length, List.length_take] at hcount
              omega
            generalize ((text.drop delim.length).drop 2) = after at hfind hrest htext hbody hlater ⊢
            rw [← hbody] at htext ⊢
            rw [hrest] at hlater ⊢
            have hafter : body ++ crlf ++ (delim ++ rest) = after := by
              rw [hbody, ← hrest, List.take_append_drop]
            have hopening : (text.take delim.length).length = delim.length := by
              rw [List.length_take]
              omega
            generalize text.take delim.length = opening at htext hopening
            have hshape : payload = past ++ (opening ++ crlf ++ body ++ crlf ++ (delim ++ rest)) := by
              rw [hpayload, htext]
              simp
            rw [hlen, ← hafter] at hfind
            have hfirst := splitFormdata_body hne past opening body rest hopening hfind hshape hsize
            -- what is left is a shorter payload behind a longer past
            let past' := past ++ (opening ++ crlf ++ body ++ [0, 10])
            have hpast' : past'.length = past.length + delim.length + 2 + body.length + 2 := by
              simp only [past', List.length_append, crlf_length, hopening, List.length_cons,
                List.length_nil]
              omega
            have hmem : past ++ (opening ++ crlf ++ body ++ 0 :: 10 :: (delim ++ rest)) ++ [0] =
                past' ++ (delim ++ rest) ++ [0] := by
              simp [past']
            have hsame : (past' ++ (delim ++ rest)).length = payload.length := by
              rw [List.length_append, hpast', hshape]
              simp only [List.length_append, crlf_length, hopening]
              omega
            obtain ⟨datas, mem, hnext, hsplits⟩ := ih past' (delim ++ rest) rfl (by simp)
              (hsame ▸ hsize) hlater
            rw [hsame, hpast'] at hnext
            refine ⟨⟨past.length + delim.length + 2,
              past.length + delim.length + 2 + body.length⟩ :: datas, mem, ?_, ?_⟩
            · unfold splitAll
              rw [hfirst, ok_bind, hmem]
              dsimp only
              rw [hnext]
              rfl
            · rw [List.map_cons, partBody_append, ← hopening]
              exact hsplits.cons hsame
      · rw [if_neg hcrlf]
        refine ⟨[], payload ++ [0], hend fun h => absurd h hcrlf, ?_⟩
        exact hstays past payload (hpayload ▸ List.prefix_append ..)

end Split

/-! ## Processing the form data -/

section Process

variable {mem back : List UInt8} {stop : ℕ}

theorem lt_of_drop_eq_cons {b : UInt8} (h : mem.drop stop = b :: back) : stop < mem.length := by
  by_contra hge
  rw [List.drop_eq_nil_of_le (not_lt.mp hge)] at h
  cases h

theorem mem_drop_of_zero (h : mem.drop stop = 0 :: back) {p : ℕ} (hp : p ≤ stop) :
    0 ∈ mem.drop p := by
  rw [show stop = p + (stop - p) by omega, ← List.drop_drop] at h
  exact List.mem_of_mem_drop (h ▸ List.mem_cons_self)

theorem length_of_stringAt (h : mem.drop stop = 0 :: back) {p : ℕ} (hp : p ≤ stop)
    {text : List UInt8} (htext : stringAt mem p = some text) : p + text.length ≤ stop := by
  obtain ⟨s, rest, hzero, hdrop, hs⟩ := stringAt_of_mem (mem_drop_of_zero h hp)
  obtain rfl : s = text := Option.some.inj (hs.symm.trans htext)
  by_contra hlong
  have hget : (mem.drop p)[stop - p]? = some 0 := by
    rw [List.getElem?_drop, show p + (stop - p) = stop + 0 by omega, ← List.getElem?_drop, h]
    rfl
  rw [hdrop, List.getElem?_append_left (by omega)] at hget
  exact hzero (List.mem_of_getElem? hget)

theorem store_zero (h : mem.drop stop = 0 :: back) {p : ℕ} (hp : p ≤ stop) :
    store mem p 0 = some (mem.set p 0) ∧ (mem.set p 0).drop stop = 0 :: back := by
  have hlt := lt_of_drop_eq_cons h
  refine ⟨if_pos (by omega), ?_⟩
  rcases Nat.lt_or_ge p stop with hbefore | hafter
  · rw [List.drop_set_of_lt hbefore, h]
  · obtain rfl : p = stop := by omega
    rw [List.drop_set, h]
    simp

theorem strchr_zero (h : mem.drop stop = 0 :: back) {p : ℕ} (hp : p ≤ stop) (c : UInt8) :
    ∃ found, strchr mem p c = some found ∧ ∀ q ∈ found, q ≤ stop := by
  obtain ⟨i, hi⟩ : ∃ i, (mem.drop p).findIdx? (fun b => b = c ∨ b = 0) = some i := by
    rw [← Option.isSome_iff_exists, List.findIdx?_isSome, List.any_eq_true]
    exact ⟨0, mem_drop_of_zero h hp, by simp⟩
  have hle : p + i ≤ stop := by
    obtain ⟨hlt, -, hfirst⟩ := List.findIdx?_eq_some_iff_getElem.mp hi
    by_contra hbehind
    have hzero : (mem.drop p)[stop - p]? = some 0 := by
      rw [List.getElem?_drop, show p + (stop - p) = stop + 0 by omega, ← List.getElem?_drop, h]
      rfl
    refine hfirst (stop - p) (by omega) ?_
    rw [(List.getElem?_eq_some_iff.mp hzero).2]
    simp
  refine ⟨if mem[p + i]? = some c then some (p + i) else none, by rw [strchr, hi]; rfl, ?_⟩
  intro q hq
  split at hq
  · cases hq
    exact hle
  · cases hq

theorem strstr_zero (h : mem.drop stop = 0 :: back) {p : ℕ} (hp : p ≤ stop) (pat : List UInt8) :
    ∃ found, strstr mem p pat = some found ∧ ∀ q ∈ found, q + pat.length ≤ stop := by
  obtain ⟨text, -, -, -, htext⟩ := stringAt_of_mem (mem_drop_of_zero h hp)
  refine ⟨_, strstr_eq htext pat, ?_⟩
  intro q hq
  obtain ⟨i, hi, rfl⟩ := Option.map_eq_some_iff.mp hq
  have hin := find_length hi
  have hlen := length_of_stringAt h hp htext
  omega

theorem nameExtract_zero (h : mem.drop stop = 0 :: back) {p : ℕ} (hp : p ≤ stop) :
    ∃ name mem', nameExtract mem p = .ok (name, mem') ∧ name ≤ stop ∧
      mem'.drop stop = 0 :: back := by
  have hquoted : agree mem p [quote] = some (decide ([quote] <+: mem.drop p)) :=
    agree_of_zero (by decide) (mem_drop_of_zero h hp)
  -- the byte that ends the string is no quote
  have hname : (if decide ([quote] <+: mem.drop p) then p + 1 else p) ≤ stop := by
    split
    · rename_i hquote
      have hne : p ≠ stop := by
        rintro rfl
        rw [h] at hquote
        exact absurd hquote (by simp [quote])
      omega
    · exact hp
  obtain ⟨found, hfound, hinside⟩ := strchr_zero h hname
    (if decide ([quote] <+: mem.drop p) then quote else carriageReturn)
  unfold nameExtract
  rw [hquoted, inside_some, ok_bind]
  dsimp only
  rw [hfound, inside_some, ok_bind]
  cases found with
  | none => exact ⟨_, _, rfl, hname, h⟩
  | some q =>
      obtain ⟨hstore, hkept⟩ := store_zero h (hinside q rfl)
      dsimp only
      rw [hstore]
      exact ⟨_, _, rfl, hname, hkept⟩

theorem extractAfter_zero (h : mem.drop stop = 0 :: back) (keyword : List UInt8) {found : Option ℕ}
    (hfound : ∀ q ∈ found, q + keyword.length ≤ stop) :
    ∃ name mem', extractAfter mem keyword found = .ok (name, mem') ∧
      (name.isSome = found.isSome) ∧ (∀ i ∈ name, i ≤ stop) ∧ mem'.drop stop = 0 :: back := by
  cases found with
  | none => exact ⟨none, mem, rfl, rfl, by simp, h⟩
  | some q =>
      obtain ⟨name, mem', hrun, hname, hkept⟩ := nameExtract_zero h (hfound q rfl)
      refine ⟨some name, mem', ?_, rfl, by simpa using hname, hkept⟩
      show (nameExtract mem (q + keyword.length) >>= _) = _
      rw [hrun]
      rfl

/-- A form value of a payload of `n` bytes: its strings start in the payload, it
has a name, and its data are a range of the payload. -/
structure FormValue.Inside (n : ℕ) (value : FormValue ℕ) : Prop where
  name : ∃ i ≤ n, value.name = some i
  filename : ∀ i ∈ value.filename, i ≤ n
  data : value.data + value.size.toNat ≤ n

theorem FormValue.Inside.mono {n m : ℕ} {value : FormValue ℕ} (h : value.Inside n) (hle : n ≤ m) :
    value.Inside m := by
  obtain ⟨⟨i, hi, hname⟩, hfilename, hdata⟩ := h
  exact ⟨⟨i, hi.trans hle, hname⟩, fun i hi => (hfilename i hi).trans hle, hdata.trans hle⟩

theorem stringAt_set {p i : ℕ} {text : List UInt8} (htext : stringAt mem p = some text)
    (hi : i ≤ text.length) : stringAt (mem.set (p + i) 0) p = some (text.take i) := by
  have hmem : 0 ∈ mem.drop p := by
    by_contra hnone
    simp [stringAt, hnone] at htext
  obtain ⟨s, rest, hzero, hdrop, hs⟩ := stringAt_of_mem hmem
  obtain rfl : s = text := Option.some.inj (hs.symm.trans htext)
  have hset : (mem.set (p + i) 0).drop p = s.take i ++ 0 :: (s ++ 0 :: rest).drop (i + 1) := by
    rw [List.drop_set, if_neg (by omega), Nat.add_sub_cancel_left, hdrop,
      List.set_eq_take_append_cons_drop, if_pos (by simp; omega),
      List.take_append_of_le_length hi]
  exact stringAt_append (fun hin => hzero (List.mem_of_mem_take hin)) hset

theorem processFormdata_zero {data : Formdata} (h : mem.drop data.stop = 0 :: back)
    (hle : data.start ≤ data.stop) (hsize : data.stop < 2 ^ 32) {text : List UInt8}
    (htext : stringAt mem data.start = some text)
    (hnamed : ∀ i, find (crlf ++ crlf) text = some i → nameStr <:+: text.take i) :
    ∃ value mem', processFormdata mem data = .ok (value, mem') ∧
      mem'.drop data.stop = 0 :: back ∧ ∀ v ∈ value, v.Inside data.stop := by
  unfold processFormdata
  rw [strstr_eq htext, inside_some, ok_bind]
  cases hfind : find (crlf ++ crlf) text with
  | none => exact ⟨none, mem, rfl, h, by simp⟩
  | some i =>
      have hlen := length_of_stringAt h hle htext
      have hin : i + 4 ≤ text.length := find_length hfind
      obtain ⟨hstore, hkept⟩ := store_zero h (show data.start + i ≤ data.stop by omega)
      have hheader := stringAt_set htext (show i ≤ text.length by omega)
      obtain ⟨j, hj⟩ : ∃ j, find nameStr (text.take i) = some j := by
        by_contra hnone
        rw [← Option.isSome_iff_exists, Option.not_isSome_iff_eq_none,
          find_eq_none (by decide)] at hnone
        exact hnone (hnamed i hfind)
      have hname : ∀ q ∈ some (data.start + j), q + nameStr.length ≤ data.stop := by
        have := find_length hj
        rw [List.length_take] at this
        simp
        omega
      obtain ⟨file, hfile, hfilein⟩ := strstr_zero hkept hle filenameStr
      obtain ⟨name, mem₁, hrun₁, hsome, hname₁, hkept₁⟩ := extractAfter_zero hkept nameStr hname
      obtain ⟨filename, mem₂, hrun₂, -, hname₂, hkept₂⟩ :=
        extractAfter_zero hkept₁ filenameStr hfilein
      simp only [Option.map_some]
      rw [hstore, inside_some, ok_bind, strstr_eq hheader, hj, inside_some, ok_bind, hfile,
        inside_some, ok_bind]
      simp only [Option.map_some]
      rw [hrun₁, ok_bind]
      dsimp only
      rw [hrun₂]
      refine ⟨_, mem₂, rfl, hkept₂, ?_⟩
      rintro v ⟨⟩
      refine ⟨?_, hname₂, ?_⟩
      · obtain ⟨k, hk⟩ := Option.isSome_iff_exists.mp (hsome.trans rfl)
        exact ⟨k, hname₁ k hk, hk⟩
      · dsimp only
        rw [ptrDiff_toNat (by omega) hsize]
        omega

theorem stringAt_body {p : ℕ} {body rest : List UInt8} (h : mem.drop p = body ++ 0 :: rest) :
    stringAt mem p = some (body.takeWhile (· ≠ 0)) := by
  unfold stringAt
  rw [h, if_pos (by simp), List.takeWhile_append]
  split
  · rename_i hall
    rw [(List.takeWhile_prefix _).eq_of_length hall]
    simp
  · rfl

theorem processAll_slices {parts : List (List UInt8)} (hparts : ∀ part ∈ parts, Proper part)
    {n : ℕ} (hsize : n < 2 ^ 32) :
    ∀ {lo : ℕ} {datas : List Formdata} {mem : List UInt8}, Slices mem lo datas (parts.map partBody) →
      mem.drop n = [0] →
      ∃ values mem', processAll datas mem = .ok (values, mem') ∧ values.length ≤ parts.length ∧
        mem'.drop n = [0] ∧ ∀ value ∈ values, value.Inside n := by
  induction parts with
  | nil =>
      intro lo datas mem hslices hend
      cases hslices
      exact ⟨[], mem, rfl, le_rfl, hend, by simp⟩
  | cons part parts ih =>
      intro lo datas mem hslices hend
      rw [List.map_cons] at hslices
      cases hslices with
      | @cons _ data datas _ rest _ hlo hstop hslice hlater =>
          have hzero : mem.drop data.stop = 0 :: rest := by
            rw [hstop, ← List.drop_drop, hslice, List.drop_left]
          have hle : data.stop ≤ n := by
            have hlen := congrArg List.length hzero
            have htotal := congrArg List.length hend
            simp only [List.length_drop, List.length_cons, List.length_nil] at hlen htotal
            omega
          obtain ⟨value, mem₁, hfirst, hkept, hinside⟩ := processFormdata_zero hzero (by omega)
            (by omega) (stringAt_body hslice) (hparts part List.mem_cons_self).named
          have hfrom : ∀ i, data.stop ≤ i → mem₁.drop i = mem.drop i := by
            intro i hi
            rw [show i = data.stop + (i - data.stop) by omega, ← List.drop_drop, ← List.drop_drop,
              hkept, hzero]
          obtain ⟨values, mem₂, hrest, hcount, hend₂, hvalues⟩ :=
            ih (fun part hpart => hparts part (List.mem_cons_of_mem _ hpart))
              (hlater.congr (hfrom _ (by omega))) ((hfrom n hle).trans hend)
          refine ⟨value.toList ++ values, mem₂, ?_, ?_, hend₂, ?_⟩
          · unfold processAll
            rw [hfirst, ok_bind]
            dsimp only
            rw [hrest]
            rfl
          · have hone : value.toList.length ≤ 1 := by cases value <;> simp
            rw [List.length_append, List.length_cons]
            omega
          · intro v hv
            rcases List.mem_append.mp hv with hhere | hthere
            · exact (hinside v (Option.mem_toList.mp hhere)).mono hle
            · exact hvalues v hthere

theorem partTexts_length (delim : List UInt8) (count : ℕ) (text : List UInt8) :
    (partTexts delim count text).length ≤ count := by
  induction count generalizing text with
  | zero => exact le_rfl
  | succ count ih =>
      unfold partTexts
      dsimp only
      split
      · split
        · exact Nat.zero_le _
        · exact Nat.succ_le_succ (ih _)
      · exact Nat.zero_le _

theorem parseForm_proper {boundary payload : List UInt8} (hsize : payload.length < 2 ^ 32)
    (hroom : (ascii "--" ++ boundary).length ≤ payload.length)
    (hparts : ∀ part ∈ partTexts (ascii "--" ++ boundary) maxFormValueItems payload, Proper part) :
    ∃ values mem, parseForm boundary payload.length (payload ++ [0]) = .ok (values, mem) ∧
      values.length ≤ maxFormValueItems ∧ mem.drop payload.length = [0] ∧
      ∀ value ∈ values, value.Inside payload.length := by
  have hne : ascii "--" ++ boundary ≠ [] := List.append_ne_nil_of_left_ne_nil (by decide) _
  obtain ⟨datas, mem, hsplit, hsplits⟩ := splitAll_safe hne maxFormValueItems [] payload
    (List.nil_append payload).symm hroom hsize fun part hpart => (hparts part hpart).ended
  have hend : mem.drop payload.length = [0] := by
    have hlt : payload.length < mem.length := by rw [hsplits.length]; omega
    have hget := hsplits.zero
    rw [List.getElem?_eq_getElem hlt, Option.some.injEq] at hget
    rw [List.drop_eq_getElem_cons hlt, hget, List.drop_eq_nil_of_le (by rw [hsplits.length])]
  obtain ⟨values, mem', hrun, hcount, hend', hinside⟩ :=
    processAll_slices hparts hsize hsplits.slices hend
  refine ⟨values, mem', ?_, hcount.trans (partTexts_length ..), hend', hinside⟩
  unfold parseForm
  rw [List.length_nil] at hsplit
  rw [hsplit, ok_bind]
  exact hrun

end Process

/-! ## The form of a request -/

section Request

variable {τ ρ : Type} {server : Server τ ρ} {s : ℕ}

/-- A form value lies in the payload of `n` bytes at `p`. -/
structure FormValue.Lies (p : Ptr) (n : ℕ) (value : FormValue Ptr) : Prop where
  name : ∃ i ≤ n, value.name = some (p.add i)
  filename : ∀ q ∈ value.filename, ∃ i ≤ n, q = p.add i
  data : ∃ i, value.data = p.add i ∧ i + value.size.toNat ≤ n

theorem FormValue.Inside.at {n : ℕ} {value : FormValue ℕ} (h : value.Inside n) (p : Ptr) :
    (value.at p).Lies p n := by
  obtain ⟨⟨i, hi, hname⟩, hfilename, hdata⟩ := h
  refine ⟨⟨i, hi, by simp [FormValue.at, hname]⟩, ?_, ⟨_, rfl, hdata⟩⟩
  intro q hq
  obtain ⟨j, hj, rfl⟩ := Option.map_eq_some_iff.mp hq
  exact ⟨j, hfilename j hj, rfl⟩

/-- What parsing the payload of `n` bytes at `p` leaves. -/
structure Server.Parsed (server : Server τ ρ) (s : ℕ) (p : Ptr) (n : ℕ) (parsed : Server τ ρ) :
    Prop where
  fault : parsed.shared.fault = server.shared.fault
  elsewhere : ∀ q, (∀ i ≤ n, q ≠ p.add i) → parsed.memory q = server.memory q
  terminated : parsed.memory (p.add n) = 0
  count : (parsed.sessions s).request.form.length ≤ maxFormValueItems
  values : ∀ value ∈ (parsed.sessions s).request.form, value.Lies p n

theorem Server.write_elsewhere (server : Server τ ρ) (p : Ptr) {bytes : List UInt8} {q : Ptr}
    (h : ∀ i < bytes.length, q ≠ p.add i) : (server.write p bytes).memory q = server.memory q := by
  have hblit : ∀ mem : ℕ → UInt8, q.area = p.area → blit mem p.off bytes q.off = mem q.off := by
    intro mem harea
    refine if_neg fun hin => h (q.off - p.off) (by omega) ?_
    obtain ⟨area, off⟩ := q
    obtain rfl : area = p.area := harea
    simp only [Ptr.add, Ptr.mk.injEq, true_and] at hin ⊢
    omega
  obtain ⟨area, off⟩ := p
  obtain ⟨area', off'⟩ := q
  cases area with
  | ram =>
      cases area' with
      | ram => exact hblit server.ram rfl
      | cache s' => rfl
  | cache s' =>
      cases area' with
      | ram => rfl
      | cache s'' =>
          by_cases hs : s'' = s'
          · subst hs
            simpa [Server.write, Server.memory] using hblit (server.sessions s'').buf rfl
          · simp [Server.write, Server.memory, setSession_of_ne server hs]

theorem parseUpload_proper {boundary payload : List UInt8} (h : server.Received s boundary payload)
    (hroom : (ascii "--" ++ boundary).length ≤ payload.length)
    (hparts : ∀ part ∈ partTexts (ascii "--" ++ boundary) maxFormValueItems payload, Proper part) :
    ∃ p ∈ (server.sessions s).uploadPtr,
      server.Parsed s p payload.length (parseUpload s server).2 := by
  obtain ⟨b, hb, rfl⟩ := h.boundary
  obtain ⟨p, hp, hupload⟩ := h.upload
  have hlt : payload.length < 2 ^ 32 := h.size ▸ (server.sessions s).payloadSize.isLt
  obtain ⟨values, mem, hparse, hcount, hend, hinside⟩ := parseForm_proper hlt hroom hparts
  have hlen : mem.length = payload.length + 1 := by
    have htotal := congrArg List.length hend
    rw [List.length_drop, List.length_singleton] at htotal
    omega
  rw [← hupload, ← h.size] at hparse
  rw [parseUpload_run hb hp hparse]
  obtain ⟨sessions, ram, hrest⟩ := server.write_rest p mem
  obtain ⟨buf, hsession⟩ := server.write_sessions s p mem
  refine ⟨p, hp, ?_, ?_, ?_, ?_, ?_⟩
  · rw [hrest]
    rfl
  · intro q hq
    rw [Server.memory_setSession (server.write p mem) s (by rfl)]
    exact server.write_elsewhere p fun i hi => hq i (by omega)
  · rw [Server.memory_setSession (server.write p mem) s (by rfl)]
    have hget := Memory.bytes_get (server.write_bytes p mem) (show payload.length < mem.length by omega)
    have hzero : mem[payload.length]? = some 0 := by
      rw [← List.head?_drop, hend]
      rfl
    exact Option.some.inj (hget.symm.trans hzero)
  · rw [setSession_self, hsession]
    dsimp only
    rw [h.form, List.nil_append, List.length_map]
    exact hcount
  · rw [setSession_self, hsession]
    dsimp only
    rw [h.form, List.nil_append]
    intro value hvalue
    obtain ⟨v, hv, rfl⟩ := List.mem_map.mp hvalue
    exact (hinside v hv).at p

theorem findValue_answers {p : Ptr} {n : ℕ} {form : List (FormValue Ptr)}
    (h : ∀ value ∈ form, value.Lies p n) (memory : Memory) (key : List UInt8) :
    ∃ found, httpdRequestFindValue (strcmpAt memory key) form = .ok found := by
  induction form with
  | nil => exact ⟨none, rfl⟩
  | cons value form ih =>
      obtain ⟨i, -, hname⟩ := (h value List.mem_cons_self).name
      obtain ⟨found, hfound⟩ := ih fun v hv => h v (List.mem_cons_of_mem _ hv)
      unfold httpdRequestFindValue
      rw [hname]
      dsimp only
      rw [strcmpAt, ok_bind]
      split
      · exact ⟨_, rfl⟩
      · exact ⟨found, hfound⟩

structure Server.Refused (server refused : Server τ ρ) : Prop where
  fault : refused.shared.fault = server.shared.fault
  memory : refused.memory = server.memory
  log : refused.log = server.log

theorem httpdHandleRequest_refused (env : Env τ ρ) (handlers : List (List UInt8 × Handler τ ρ))
    (conn : ℕ) (hmethod : (server.sessions s).request.method = .post)
    (h : httpdFindUriHandler handlers ((server.sessions s).stringAt (server.sessions s).uri) = none ∨
      env.malloc server.shared.allocs = false) :
    server.Refused (httpdHandleRequest env handlers conn s server).2 := by
  unfold httpdHandleRequest
  rw [bind_run, getSession_run]
  dsimp only
  cases hindex : httpdFindUriHandler handlers
      ((server.sessions s).stringAt (server.sessions s).uri) with
  | none => exact ⟨rfl, server.memory_setSession s rfl, rfl⟩
  | some index =>
      rw [hindex] at h
      have hcalloc : onShared (malloc env) (server.asked s index) =
          (false, (server.asked s index).allocated) := by
        rw [← h.resolve_left nofun]
        rfl
      dsimp only
      rw [bind_run, modifySession_asked rfl, hmethod]
      dsimp only
      rw [bind_run, bind_run, hcalloc]
      exact ⟨rfl, server.memory_setSession s rfl, rfl⟩

end Request

/-! ## Requests that are not contained -/

section Sample

def uploaded (text : String) : FailsafeServer :=
  (sampleBoard.web (fun _ => 0) 0 [browserSegment 1001 { syn := true } 100 0 "",
    browserSegment 1001 { ack := true } 101 1 ("POST /upload HTTP/1.1\r\n" ++ text)]).app

end Sample

end Nwa50ax.Http
