import Mathlib.Data.List.DropRight
import Mathlib.Tactic

/-!
# Lists of tokens in a text

Tokens are written one after the other with a separator between them.  Several
separators in a row, and separators at either end, count as one or none.
-/

namespace Tokens

variable {α : Type} [DecidableEq α] (sep : α)

/-- The tokens of a text that follow the unfinished token `cur`. -/
def tokensFrom (cur : List α) : List α → List (List α)
  | [] => if cur = [] then [] else [cur]
  | c :: rest =>
      if c = sep then
        if cur = [] then tokensFrom [] rest else cur :: tokensFrom [] rest
      else tokensFrom (cur ++ [c]) rest

def tokens (text : List α) : List (List α) := tokensFrom sep [] text

def strip (text : List α) : List α :=
  (text.dropWhile (· = sep)).rdropWhile (· = sep)

def squeeze : List α → List α
  | [] => []
  | [c] => [c]
  | c :: d :: rest => if c = sep ∧ d = sep then squeeze (d :: rest) else c :: squeeze (d :: rest)

variable {sep}

theorem tokensFrom_sep (cur rest : List α) :
    tokensFrom sep cur (sep :: rest) = (if cur = [] then [] else [cur]) ++ tokens sep rest := by
  unfold tokens
  by_cases hcur : cur = [] <;> simp [tokensFrom, hcur]

@[simp] theorem tokens_nil : tokens sep [] = [] := rfl

theorem tokens_sep (rest : List α) : tokens sep (sep :: rest) = tokens sep rest := by
  simp [tokens, tokensFrom]

/-! ## Texts with the same tokens -/

theorem tokensFrom_squeeze (cur text : List α) :
    tokensFrom sep cur (squeeze sep text) = tokensFrom sep cur text := by
  induction text using squeeze.induct sep generalizing cur with
  | case1 => rfl
  | case2 c => rfl
  | case3 c d rest hseps ih =>
      obtain ⟨rfl, rfl⟩ := hseps
      rw [squeeze, if_pos ⟨rfl, rfl⟩, ih, tokensFrom_sep, tokensFrom_sep, tokens_sep]
  | case4 c d rest hseps ih =>
      rw [squeeze, if_neg hseps, tokensFrom, tokensFrom]
      simp only [ih]

theorem tokens_squeeze (text : List α) : tokens sep (squeeze sep text) = tokens sep text :=
  tokensFrom_squeeze [] text

theorem tokens_dropWhile (text : List α) :
    tokens sep (text.dropWhile (· = sep)) = tokens sep text := by
  induction text with
  | nil => rfl
  | cons c rest ih =>
      by_cases hc : c = sep
      · subst hc
        rw [List.dropWhile_cons_of_pos (by simp), ih, tokens_sep]
      · rw [List.dropWhile_cons_of_neg (by simpa using hc)]

theorem tokensFrom_concat_sep (cur text : List α) :
    tokensFrom sep cur (text ++ [sep]) = tokensFrom sep cur text := by
  induction text generalizing cur with
  | nil => rw [List.nil_append, tokensFrom_sep, tokensFrom, tokens, tokensFrom, if_pos rfl,
      List.append_nil]
  | cons c rest ih =>
      rw [List.cons_append, tokensFrom, tokensFrom]
      simp only [ih]

theorem tokens_rdropWhile (text : List α) :
    tokens sep (text.rdropWhile (· = sep)) = tokens sep text := by
  induction text using List.reverseRecOn with
  | nil => rfl
  | append_singleton text c ih =>
      by_cases hc : c = sep
      · subst hc
        rw [List.rdropWhile_concat_pos _ _ _ (by simp), ih]
        exact (tokensFrom_concat_sep [] text).symm
      · rw [List.rdropWhile_concat_neg _ _ _ (by simpa using hc)]

theorem tokens_strip (text : List α) : tokens sep (strip sep text) = tokens sep text := by
  rw [strip, tokens_rdropWhile, tokens_dropWhile]

/-! ## The tokens themselves -/

def IsToken (sep : α) (token : List α) : Prop := token ≠ [] ∧ sep ∉ token

theorem isToken_of_mem_tokensFrom {cur text token : List α} (hcur : sep ∉ cur)
    (h : token ∈ tokensFrom sep cur text) : IsToken sep token := by
  induction text generalizing cur with
  | nil =>
      rw [tokensFrom] at h
      split at h
      case isTrue => simp at h
      case isFalse hne =>
        obtain rfl := List.mem_singleton.mp h
        exact ⟨hne, hcur⟩
  | cons c rest ih =>
      by_cases hc : c = sep
      · subst hc
        rw [tokensFrom_sep] at h
        rcases List.mem_append.mp h with h | h
        · split at h
          case isTrue => simp at h
          case isFalse hne =>
            obtain rfl := List.mem_singleton.mp h
            exact ⟨hne, hcur⟩
        · exact ih (by simp) h
      · rw [tokensFrom, if_neg hc] at h
        refine ih ?_ h
        simp only [List.mem_append, List.mem_singleton, not_or]
        exact ⟨hcur, fun heq => hc heq.symm⟩

theorem isToken_of_mem_tokens {text token : List α} (h : token ∈ tokens sep text) :
    IsToken sep token :=
  isToken_of_mem_tokensFrom (by simp) h

theorem tokensFrom_append {cur part : List α} (hpart : sep ∉ part) (rest : List α) :
    tokensFrom sep cur (part ++ rest) = tokensFrom sep (cur ++ part) rest := by
  induction part generalizing cur with
  | nil => simp
  | cons c part ih =>
      have hc : c ≠ sep := fun heq => hpart (heq ▸ List.mem_cons_self)
      rw [List.cons_append, tokensFrom, if_neg hc,
        ih fun hmem => hpart (List.mem_cons_of_mem _ hmem), List.append_assoc]
      rfl

theorem tokens_of_isToken {token : List α} (h : IsToken sep token) :
    tokens sep token = [token] := by
  have happend : tokens sep (token ++ []) = [token] := by
    rw [tokens, tokensFrom_append h.2, List.nil_append, tokensFrom, if_neg h.1]
  rwa [List.append_nil] at happend

theorem tokens_intercalate {parts : List (List α)} (h : ∀ part ∈ parts, sep ∉ part) :
    tokens sep ([sep].intercalate parts) = parts.filter (· ≠ []) := by
  induction parts with
  | nil => rfl
  | cons part parts ih =>
      have hpart : sep ∉ part := h part List.mem_cons_self
      have hparts := ih fun part' hmem => h part' (List.mem_cons_of_mem _ hmem)
      cases parts with
      | nil =>
          have hone : tokens sep (part ++ []) = if part = [] then [] else [part] := by
            rw [tokens, tokensFrom_append hpart, List.nil_append, tokensFrom]
          rw [List.append_nil] at hone
          by_cases hnil : part = [] <;> simp [hone, hnil]
      | cons next parts =>
          have hsplit : [sep].intercalate (part :: next :: parts) =
              part ++ sep :: [sep].intercalate (next :: parts) := by
            simp [List.intercalate]
          rw [hsplit, tokens, tokensFrom_append hpart, List.nil_append, tokensFrom_sep, hparts]
          by_cases hnil : part = [] <;> simp [hnil]

omit [DecidableEq α] in
theorem filter_set_nil {parts : List (List α)} (h : ∀ part ∈ parts, part ≠ []) (i : ℕ) :
    (parts.set i []).filter (· ≠ []) = parts.eraseIdx i := by
  induction parts generalizing i with
  | nil => rfl
  | cons part parts ih =>
      have hparts : ∀ part' ∈ parts, part' ≠ [] := fun part' hmem =>
        h part' (List.mem_cons_of_mem _ hmem)
      cases i with
      | zero =>
          rw [List.set_cons_zero, List.filter_cons_of_neg (by simp), List.eraseIdx_cons_zero]
          exact List.filter_eq_self.mpr fun part' hmem => by simpa using hparts part' hmem
      | succ i =>
          rw [List.set_cons_succ, List.filter_cons_of_pos (by simpa using h part List.mem_cons_self),
            ih hparts, List.eraseIdx_cons_succ]

/-! ## Tidy texts -/

structure Tidy (sep : α) (text : List α) : Prop where
  head : text.head? ≠ some sep
  last : text.getLast? ≠ some sep
  single : ¬[sep, sep] <:+: text

theorem head?_squeeze (text : List α) : (squeeze sep text).head? = text.head? := by
  induction text using squeeze.induct sep with
  | case1 => rfl
  | case2 c => rfl
  | case3 c d rest hseps ih =>
      rw [squeeze, if_pos hseps, ih, List.head?_cons, List.head?_cons, hseps.1, hseps.2]
  | case4 c d rest hseps ih => rw [squeeze, if_neg hseps, List.head?_cons, List.head?_cons]

theorem getLast?_squeeze (text : List α) : (squeeze sep text).getLast? = text.getLast? := by
  induction text using squeeze.induct sep with
  | case1 => rfl
  | case2 c => rfl
  | case3 c d rest hseps ih =>
      rw [squeeze, if_pos hseps, ih, List.getLast?_cons_cons]
  | case4 c d rest hseps ih =>
      have hne : squeeze sep (d :: rest) ≠ [] := by
        intro hnil
        have hhead : (squeeze sep (d :: rest)).head? = some d := head?_squeeze (d :: rest)
        rw [hnil] at hhead
        exact absurd hhead (by simp)
      obtain ⟨e, rest', hcons⟩ := List.exists_cons_of_ne_nil hne
      rw [squeeze, if_neg hseps, List.getLast?_cons_cons, ← ih, hcons, List.getLast?_cons_cons]

theorem single_squeeze (text : List α) : ¬[sep, sep] <:+: squeeze sep text := by
  induction text using squeeze.induct sep with
  | case1 => simp [squeeze]
  | case2 c =>
      intro h
      have hlen := h.length_le
      simp [squeeze] at hlen
  | case3 c d rest hseps ih =>
      rw [squeeze, if_pos hseps]
      exact ih
  | case4 c d rest hseps ih =>
      rw [squeeze, if_neg hseps, List.infix_cons_iff]
      rintro (hfirst | hlater)
      · obtain ⟨hc, htail⟩ := List.cons_prefix_cons.mp hfirst
        have hhead : (squeeze sep (d :: rest)).head? = some d := head?_squeeze (d :: rest)
        obtain ⟨tail, htail⟩ := htail
        rw [← htail] at hhead
        exact hseps ⟨hc.symm, (Option.some.inj hhead).symm⟩
      · exact ih hlater

theorem head?_strip (text : List α) : (strip sep text).head? ≠ some sep := by
  intro h
  have hdrop : (text.dropWhile (· = sep)).head? = some sep := by
    obtain ⟨tail, htail⟩ := List.rdropWhile_prefix (· = sep) (text.dropWhile (· = sep))
    rw [← htail, List.head?_append, show (List.rdropWhile _ _).head? = some sep from h]
    rfl
  have hnot := List.head?_dropWhile_not (· = sep) text
  rw [hdrop] at hnot
  simp at hnot

theorem getLast?_strip (text : List α) : (strip sep text).getLast? ≠ some sep := by
  intro h
  have hne : strip sep text ≠ [] := by
    intro hnil
    rw [hnil] at h
    exact absurd h (by simp)
  have hnot := List.rdropWhile_last_not (· = sep) (text.dropWhile (· = sep)) hne
  rw [List.getLast?_eq_some_getLast hne, Option.some_inj] at h
  exact hnot (by simpa [strip] using h)

theorem tidy_squeeze_strip (text : List α) : Tidy sep (squeeze sep (strip sep text)) where
  head := by rw [head?_squeeze]; exact head?_strip text
  last := by rw [getLast?_squeeze]; exact getLast?_strip text
  single := single_squeeze _

end Tokens
