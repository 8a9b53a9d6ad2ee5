import Mathlib.Data.List.Infix
import Mathlib.Tactic

/-!
# Searching memory and zero-terminated strings

A region of memory is a list of bytes.  The functions below are those of a C
library; `none` says that an access outside the region is needed to answer.
`find` is the search they have in common: the first position at which a pattern
occurs.
-/

namespace CString

/-! ## The first occurrence of a pattern -/

section Find

variable {α : Type} [DecidableEq α]

def find (pat : List α) : List α → Option ℕ
  | [] => if pat <+: [] then some 0 else none
  | c :: text => if pat <+: c :: text then some 0 else (find pat text).map (· + 1)

variable {pat text rest : List α} {i : ℕ}

theorem find_nil (hpat : pat ≠ []) : find pat [] = none :=
  if_neg fun hpre => hpat (List.prefix_nil.mp hpre)

theorem find_cons_pos {c : α} (h : pat <+: c :: text) : find pat (c :: text) = some 0 :=
  if_pos h

theorem find_cons_neg {c : α} (h : ¬pat <+: c :: text) :
    find pat (c :: text) = (find pat text).map (· + 1) :=
  if_neg h

theorem find_eq_some : find pat text = some i ↔
    i ≤ text.length ∧ pat <+: text.drop i ∧ ∀ j < i, ¬pat <+: text.drop j := by
  induction text generalizing i with
  | nil =>
      constructor
      · intro h
        unfold find at h
        split at h
        · rename_i hpat
          cases h
          exact ⟨le_rfl, hpat, by simp⟩
        · cases h
      · rintro ⟨hle, hpat, -⟩
        obtain rfl : i = 0 := by simpa using hle
        exact if_pos hpat
  | cons c text ih =>
      by_cases hhere : pat <+: c :: text
      · rw [find_cons_pos hhere]
        constructor
        · rintro ⟨⟩
          exact ⟨Nat.zero_le _, hhere, by simp⟩
        · rintro ⟨-, -, hfirst⟩
          by_contra hne
          exact hfirst 0 (by cases i <;> simp_all) hhere
      · rw [find_cons_neg hhere, Option.map_eq_some_iff]
        constructor
        · rintro ⟨i, hi, rfl⟩
          obtain ⟨hle, hpat, hfirst⟩ := ih.mp hi
          refine ⟨by simpa using hle, hpat, fun j hj => ?_⟩
          cases j with
          | zero => exact hhere
          | succ j => exact hfirst j (by omega)
        · rintro ⟨hle, hpat, hfirst⟩
          cases i with
          | zero => exact absurd hpat hhere
          | succ i =>
              exact ⟨i, ih.mpr ⟨by simpa using hle, hpat, fun j hj => hfirst (j + 1) (by omega)⟩, rfl⟩

theorem find_eq_none (hpat : pat ≠ []) : find pat text = none ↔ ¬pat <:+: text := by
  induction text with
  | nil => simp [find_nil hpat, hpat]
  | cons c text ih =>
      rw [List.infix_cons_iff]
      by_cases hhere : pat <+: c :: text
      · simp [find_cons_pos hhere, hhere]
      · rw [find_cons_neg hhere, Option.map_eq_none_iff, ih]
        simp [hhere]

theorem find_length (h : find pat text = some i) : i + pat.length ≤ text.length := by
  obtain ⟨hle, hpat, -⟩ := find_eq_some.mp h
  have hlen := hpat.length_le
  rw [List.length_drop] at hlen
  omega

theorem find_append (h : find pat text = some i) (rest : List α) :
    find pat (text ++ rest) = some i := by
  have hlen := find_length h
  obtain ⟨hle, hpat, hfirst⟩ := find_eq_some.mp h
  refine find_eq_some.mpr ⟨by simp; omega, ?_, fun j hj hj' => hfirst j hj ?_⟩
  · rw [List.drop_append_of_le_length hle]
    exact hpat.trans (List.prefix_append ..)
  · rw [List.drop_append_of_le_length (by omega)] at hj'
    exact List.prefix_of_prefix_length_le hj' (List.prefix_append ..) (by simp; omega)

omit [DecidableEq α] in
theorem mem_of_prefix_append_cons {c : α} (text : List α) (h : pat <+: text ++ c :: rest)
    (hlong : text.length < pat.length) : c ∈ pat := by
  have hnext : text ++ [c] <+: text ++ c :: rest := by
    rw [List.prefix_append_right_inj]
    exact ⟨rest, rfl⟩
  have hinside : text ++ [c] <+: pat :=
    List.prefix_of_prefix_length_le hnext h (by simpa using hlong)
  exact hinside.subset (by simp)

theorem find_append_cons {c : α} (hc : c ∉ pat) (hpat : pat ≠ []) (hnone : find pat text = none)
    (rest : List α) :
    find pat (text ++ c :: rest) = (find pat rest).map (text.length + 1 + ·) := by
  induction text with
  | nil =>
      have hnot : ¬pat <+: c :: rest := fun hpre =>
        hc (mem_of_prefix_append_cons [] hpre (List.length_pos_iff.mpr hpat))
      rw [List.nil_append, find_cons_neg hnot]
      simp [Nat.add_comm]
  | cons d text ih =>
      rw [find_eq_none hpat, List.infix_cons_iff, not_or] at hnone
      have hnot : ¬pat <+: d :: (text ++ c :: rest) := by
        intro hpre
        rcases Nat.lt_or_ge (d :: text).length pat.length with hlong | hshort
        · exact hc (mem_of_prefix_append_cons (d :: text) hpre hlong)
        · exact hnone.1 (List.prefix_of_prefix_length_le hpre
            (List.prefix_append (d :: text) (c :: rest)) hshort)
      rw [List.cons_append, find_cons_neg hnot, ih ((find_eq_none hpat).mpr hnone.2),
        Option.map_map]
      congr 1
      funext i
      simp only [Function.comp, List.length_cons]
      omega

theorem find_append_self (pat : List α) {c : α} (hc : c ∉ text) (rest : List α) :
    find (c :: pat) (text ++ c :: pat ++ rest) = some text.length := by
  refine find_eq_some.mpr ⟨by simp, ?_, fun j hj hpre => hc ?_⟩
  · rw [List.append_assoc, List.drop_left]
    exact List.prefix_append ..
  · rw [List.append_assoc, List.drop_append_of_le_length hj.le] at hpre
    have hne : text.drop j ≠ [] := by
      rw [ne_eq, List.drop_eq_nil_iff]
      omega
    obtain ⟨d, tail, htail⟩ := List.exists_cons_of_ne_nil hne
    rw [htail, List.cons_append, List.cons_prefix_cons] at hpre
    rw [hpre.1]
    exact List.mem_of_mem_drop (htail ▸ List.mem_cons_self)

end Find

/-! ## Memory -/

/-- `strncmp (p, pat, n) == 0` and `memcmp (p, pat, n) == 0` for a pattern of
`n` bytes without a zero: the bytes are compared up to the first difference. -/
def agree (mem : List UInt8) (p : ℕ) : List UInt8 → Option Bool
  | [] => some true
  | c :: pat =>
      match mem[p]? with
      | none => none
      | some b => if b = c then agree mem (p + 1) pat else some false

def store (mem : List UInt8) (p : ℕ) (b : UInt8) : Option (List UInt8) :=
  if p < mem.length then some (mem.set p b) else none

def stringAt (mem : List UInt8) (p : ℕ) : Option (List UInt8) :=
  if 0 ∈ mem.drop p then some ((mem.drop p).takeWhile (· ≠ 0)) else none

def strstr (mem : List UInt8) (p : ℕ) (pat : List UInt8) : Option (Option ℕ) :=
  (stringAt mem p).map fun s => (find pat s).map (p + ·)

/-- The search ends at the first byte that is `c` or zero. -/
def strchr (mem : List UInt8) (p : ℕ) (c : UInt8) : Option (Option ℕ) :=
  ((mem.drop p).findIdx? fun b => b = c ∨ b = 0).map fun i =>
    if mem[p + i]? = some c then some (p + i) else none

/-- The search for a pattern in the `limit` bytes from `p` on. -/
def memstr (mem pat : List UInt8) : ℕ → ℕ → Option (Option ℕ)
  | p, 0 => if pat.length ≤ 0 then some (some p) else some none
  | p, limit + 1 =>
      if pat.length ≤ limit + 1 then
        match agree mem p pat with
        | none => none
        | some true => some (some p)
        | some false => memstr mem pat (p + 1) limit
      else
        some none

section Memory

variable {mem : List UInt8} {p : ℕ} {pat : List UInt8}

theorem agree_cons (c : UInt8) : agree mem p (c :: pat) =
    match mem[p]? with
    | none => none
    | some b => if b = c then agree mem (p + 1) pat else some false :=
  rfl

theorem agree_true (h : pat <+: mem.drop p) : agree mem p pat = some true := by
  induction pat generalizing p with
  | nil => rfl
  | cons c pat ih =>
      obtain ⟨rest, hrest⟩ := h
      have hget : mem[p]? = some c := by
        rw [← List.head?_drop, ← hrest]
        rfl
      have htail : pat <+: mem.drop (p + 1) := by
        rw [← List.tail_drop, ← hrest]
        exact List.prefix_append ..
      rw [agree_cons]
      rw [hget]
      exact (if_pos rfl).trans (ih htail)

theorem agree_of_ne {b c : UInt8} (h : mem[p]? = some b) (hne : b ≠ c) :
    agree mem p (c :: pat) = some false := by
  rw [agree_cons]
  rw [h]
  exact if_neg hne

theorem prefix_of_agree (h : agree mem p pat = some true) : pat <+: mem.drop p := by
  induction pat generalizing p with
  | nil => exact List.nil_prefix
  | cons c pat ih =>
      rw [agree_cons] at h
      cases hget : mem[p]? with
      | none =>
          rw [hget] at h
          cases h
      | some b =>
          rw [hget] at h
          dsimp only at h
          split at h
          · rename_i hb
            obtain ⟨rest, hrest⟩ := ih h
            obtain ⟨hlt, hbyte⟩ := List.getElem?_eq_some_iff.mp hget
            rw [List.drop_eq_getElem_cons hlt, hbyte, hb]
            exact ⟨rest, by rw [List.cons_append, hrest]⟩
          · cases h

theorem agree_ne_none (h : p + pat.length ≤ mem.length) : agree mem p pat ≠ none := by
  induction pat generalizing p with
  | nil => simp [agree]
  | cons c pat ih =>
      rw [List.length_cons] at h
      rw [agree_cons]
      rw [List.getElem?_eq_getElem (by omega)]
      dsimp only
      split
      · exact ih (by omega)
      · simp

theorem agree_eq (h : p + pat.length ≤ mem.length) :
    agree mem p pat = some (decide (pat <+: mem.drop p)) := by
  by_cases hpre : pat <+: mem.drop p
  · rw [agree_true hpre, decide_eq_true hpre]
  · cases hagree : agree mem p pat with
    | none => exact absurd hagree (agree_ne_none h)
    | some answer =>
        cases answer with
        | true => exact absurd (prefix_of_agree hagree) hpre
        | false => rw [decide_eq_false hpre]

theorem agree_of_zero (hpat : 0 ∉ pat) (h : 0 ∈ mem.drop p) :
    agree mem p pat = some (decide (pat <+: mem.drop p)) := by
  induction pat generalizing p with
  | nil => simp [agree]
  | cons c pat ih =>
      obtain ⟨hc, hrest⟩ := not_or.mp (List.mem_cons.not.mp hpat)
      have hlt : p < mem.length := by
        by_contra hge
        rw [List.drop_eq_nil_of_le (not_lt.mp hge)] at h
        cases h
      rw [List.drop_eq_getElem_cons hlt] at h ⊢
      rw [agree_cons]
      rw [List.getElem?_eq_getElem hlt]
      dsimp only
      split
      · rename_i hb
        rw [hb] at h ⊢
        rw [ih hrest ((List.mem_cons.mp h).resolve_left hc)]
        simp
      · rename_i hb
        rw [decide_eq_false fun hpre => hb (List.cons_prefix_cons.mp hpre).1.symm]

theorem memstr_eq (hpat : pat ≠ []) (limit : ℕ) (h : p + limit ≤ mem.length) :
    memstr mem pat p limit = some ((find pat ((mem.drop p).take limit)).map (p + ·)) := by
  have hpos := List.length_pos_iff.mpr hpat
  induction limit generalizing p with
  | zero =>
      rw [List.take_zero, find_nil hpat]
      exact if_neg (by omega)
  | succ limit ih =>
      unfold memstr
      have hlt : p < mem.length := by omega
      have htake : (mem.drop p).take (limit + 1) =
          mem[p] :: (mem.drop (p + 1)).take limit := by
        rw [List.drop_eq_getElem_cons hlt, List.take_succ_cons]
      by_cases hroom : pat.length ≤ limit + 1
      · rw [if_pos hroom, agree_eq (by omega)]
        have hiff : pat <+: mem[p] :: (mem.drop (p + 1)).take limit ↔ pat <+: mem.drop p := by
          rw [← htake, List.prefix_take_iff]
          exact ⟨And.left, fun hpre => ⟨hpre, hroom⟩⟩
        rw [htake]
        by_cases hhere : pat <+: mem.drop p
        · rw [decide_eq_true hhere, find_cons_pos (hiff.mpr hhere)]
          rfl
        · rw [decide_eq_false hhere, find_cons_neg fun hpre => hhere (hiff.mp hpre),
            Option.map_map]
          show memstr mem pat (p + 1) limit = _
          rw [ih (by omega)]
          congr 2
          funext i
          simp only [Function.comp]
          omega
      · rw [if_neg hroom]
        have hnone : find pat ((mem.drop p).take (limit + 1)) = none := by
          rw [find_eq_none hpat]
          intro hin
          have hlen := hin.length_le
          rw [List.length_take, List.length_drop] at hlen
          omega
        rw [hnone]
        rfl

theorem stringAt_append {s rest : List UInt8} (hzero : 0 ∉ s) (h : mem.drop p = s ++ 0 :: rest) :
    stringAt mem p = some s := by
  unfold stringAt
  rw [h, if_pos (by simp), List.takeWhile_append_of_pos fun b hb => ?_]
  · simp
  · have hne : b ≠ 0 := fun heq => hzero (heq ▸ hb)
    simpa using hne

theorem stringAt_of_mem (h : 0 ∈ mem.drop p) :
    ∃ s rest, 0 ∉ s ∧ mem.drop p = s ++ 0 :: rest ∧ stringAt mem p = some s := by
  obtain ⟨s, rest, hsplit, hzero⟩ := List.eq_append_cons_of_mem h
  exact ⟨s, rest, hzero, hsplit, stringAt_append hzero hsplit⟩

theorem stringAt_begins {a b : List UInt8} (ha : 0 ∉ a) (hb : 0 ∈ b) (h : mem.drop p = a ++ b) :
    ∃ s, stringAt mem p = some (a ++ s) := by
  obtain ⟨s, rest, hsplit, hzero⟩ := List.eq_append_cons_of_mem hb
  have hfull : mem.drop p = (a ++ s) ++ 0 :: rest := by
    rw [h, hsplit, List.append_assoc]
  exact ⟨s, stringAt_append (by simp [ha, hzero]) hfull⟩

theorem strstr_eq {s : List UInt8} (h : stringAt mem p = some s) (pat : List UInt8) :
    strstr mem p pat = some ((find pat s).map (p + ·)) := by
  unfold strstr
  rw [h]
  rfl

theorem strchr_append {s rest : List UInt8} {c : UInt8} (hc : c ∉ s) (hzero : 0 ∉ s)
    (h : mem.drop p = s ++ c :: rest) : strchr mem p c = some (some (p + s.length)) := by
  have hidx : (mem.drop p).findIdx? (fun b => b = c ∨ b = 0) = some s.length := by
    rw [h, List.findIdx?_append]
    have hnone : s.findIdx? (fun b => b = c ∨ b = 0) = none := by
      rw [List.findIdx?_eq_none_iff]
      intro b hb
      have hbc : b ≠ c := fun heq => hc (heq ▸ hb)
      have hb0 : b ≠ 0 := fun heq => hzero (heq ▸ hb)
      simp [hbc, hb0]
    rw [hnone]
    simp [List.findIdx?_cons]
  have hget : mem[p + s.length]? = some c := by
    rw [← List.getElem?_drop, h, List.getElem?_append_right le_rfl, Nat.sub_self]
    rfl
  unfold strchr
  rw [hidx, Option.map_some, if_pos hget]

theorem store_append (a rest : List UInt8) (old b : UInt8) :
    store (a ++ old :: rest) a.length b = some (a ++ b :: rest) := by
  unfold store
  rw [if_pos (by simp), List.set_append_right _ _ le_rfl, Nat.sub_self]
  rfl

end Memory

end CString
