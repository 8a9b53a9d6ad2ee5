import Nwa50ax.Wifi.Profile

/-!
# Updating one token of a list

`token_set` turns a text into the list of its tokens, changes or pads the list
and writes it as a text again.  An empty value leaves a gap, which the clean-up
of the text closes.
-/

namespace Nwa50ax.Wifi

open Tokens

def updatedTokens (toks : List Text) (n : ℕ) (v : Text) : List Text :=
  if toks.length < n then toks ++ List.replicate (n - toks.length) v else toks.set (n - 1) v

section Update

variable {str v : Text} {n : ℕ}

theorem tokenSet_eq (hn : 1 ≤ n) :
    tokenSet (some str) n v =
      some (squeeze ';' (strip ';' ([';'].intercalate (updatedTokens (cfg2list str) n v)))) := by
  unfold tokenSet updatedTokens
  rw [Option.map_some]
  dsimp only
  split
  · rfl
  · rw [if_neg (Nat.one_le_iff_ne_zero.mp hn)]

theorem mem_updatedTokens {toks : List Text} {part : Text} (h : part ∈ updatedTokens toks n v) :
    part ∈ toks ∨ part = v := by
  unfold updatedTokens at h
  split at h
  · rcases List.mem_append.mp h with hmem | hmem
    · exact .inl hmem
    · exact .inr (List.eq_of_mem_replicate hmem)
  · exact List.mem_or_eq_of_mem_set h

theorem cfg2list_updated (hv : ';' ∉ v) :
    cfg2list (squeeze ';' (strip ';' ([';'].intercalate (updatedTokens (cfg2list str) n v)))) =
      (updatedTokens (cfg2list str) n v).filter (· ≠ []) := by
  rw [cfg2list, tokens_squeeze, tokens_strip]
  refine tokens_intercalate fun part hmem => ?_
  rcases mem_updatedTokens hmem with hmem | rfl
  · exact (isToken_of_mem_tokens hmem).2
  · exact hv

theorem cfg2list_updated_of_ne_nil (hv : ';' ∉ v) (hne : v ≠ []) :
    cfg2list (squeeze ';' (strip ';' ([';'].intercalate (updatedTokens (cfg2list str) n v)))) =
      updatedTokens (cfg2list str) n v := by
  rw [cfg2list_updated hv, List.filter_eq_self]
  intro part hmem
  rw [decide_eq_true_eq]
  rcases mem_updatedTokens hmem with hmem | rfl
  · exact (isToken_of_mem_tokens hmem).1
  · exact hne

end Update

theorem getElem?_updatedTokens (toks : List Text) {n : ℕ} (hn : 1 ≤ n) (v : Text) (i : ℕ) :
    (updatedTokens toks n v)[i]? =
      if i + 1 = n then some v
      else if i < toks.length then toks[i]?
      else if i + 1 < n then some v
      else none := by
  unfold updatedTokens
  rcases Nat.lt_or_ge toks.length n with hlen | hlen
  · rw [if_pos hlen]
    rcases Nat.lt_or_ge i toks.length with hi | hi
    · rw [List.getElem?_append_left hi, if_neg (by omega), if_pos hi]
    · rw [List.getElem?_append_right hi, List.getElem?_replicate]
      split_ifs <;> first | rfl | omega
  · rw [if_neg (by omega), List.getElem?_set]
    split_ifs <;> first | rfl | omega | skip
    exact List.getElem?_eq_none (by omega)

theorem tokenGet_some {text : Text} {j : ℕ} (hj : 1 ≤ j) (d : Text) :
    tokenGet (some text) j d = ((cfg2list text)[j - 1]?).getD d := by
  unfold tokenGet
  exact if_neg (Nat.one_le_iff_ne_zero.mp hj)

/-- A value takes its place in the list and, if the list is too short, the places
in front of it; an empty value removes a token; the text is tidy. -/
theorem token_set_updates_list (parts : List Text) (hparts : ∀ part ∈ parts, ';' ∉ part) (n : ℕ)
    (hn : 1 ≤ n) (v : Text) (hv : ';' ∉ v) :
    let toks := parts.filter (· ≠ [])
    ∃ text, tokenSet (some ([';'].intercalate parts)) n v = some text ∧
      (v ≠ [] → ∀ d : Text,
        tokenGet (some text) n d = v ∧
        (∀ j token, 1 ≤ j → j ≠ n → toks[j - 1]? = some token →
          tokenGet (some text) j d = token) ∧
        (∀ j, toks.length < j → j < n → tokenGet (some text) j d = v) ∧
        ∀ j, toks.length < j → n < j → tokenGet (some text) j d = d) ∧
      (v = [] → n ≤ toks.length → cfg2list text = toks.eraseIdx (n - 1)) ∧
      Tidy ';' text := by
  have htoks : cfg2list ([';'].intercalate parts) = parts.filter (· ≠ []) :=
    tokens_intercalate hparts
  dsimp only
  rw [← htoks]
  generalize [';'].intercalate parts = str
  refine ⟨_, tokenSet_eq hn, fun hne d => ?_, fun hnil hle => ?_, tidy_squeeze_strip _⟩
  · have hget : ∀ j, 1 ≤ j → tokenGet (some (squeeze ';' (strip ';'
          ([';'].intercalate (updatedTokens (cfg2list str) n v))))) j d =
        ((updatedTokens (cfg2list str) n v)[j - 1]?).getD d := by
      intro j hj
      rw [tokenGet_some hj, cfg2list_updated_of_ne_nil hv hne]
    refine ⟨?_, fun j token hj hjn htoken => ?_, fun j hlen hjn => ?_, fun j hlen hjn => ?_⟩
    · rw [hget n hn, getElem?_updatedTokens _ hn, if_pos (by omega)]
      rfl
    · have hlt := (List.getElem?_eq_some_iff.mp htoken).1
      rw [hget j hj, getElem?_updatedTokens _ hn, if_neg (by omega), if_pos hlt, htoken]
      rfl
    · rw [hget j (by omega), getElem?_updatedTokens _ hn, if_neg (by omega), if_neg (by omega),
        if_pos (by omega)]
      rfl
    · rw [hget j (by omega), getElem?_updatedTokens _ hn, if_neg (by omega), if_neg (by omega),
        if_neg (by omega)]
      rfl
  · subst hnil
    rw [cfg2list_updated hv]
    unfold updatedTokens
    rw [if_neg (by omega)]
    exact filter_set_nil (fun part hmem => (isToken_of_mem_tokens hmem).1) _

theorem token_set_updates_list_padded :
    ∃ text, tokenSet (some ([';'].intercalate [['a'], [], ['b']])) 4 ['x'] = some text ∧
      tokenGet (some text) 2 [] = ['b'] ∧ tokenGet (some text) 3 [] = ['x'] ∧
      tokenGet (some text) 5 [] = [] := by
  obtain ⟨text, hset, hvalue, -, -⟩ := token_set_updates_list [['a'], [], ['b']] (by decide) 4
    (by decide) ['x'] (by decide)
  obtain ⟨-, hold, hpadded, hbehind⟩ := hvalue (by decide) []
  exact ⟨text, hset, hold 2 ['b'] (by decide) (by decide) (by decide),
    hpadded 3 (by decide) (by decide), hbehind 5 (by decide) (by decide)⟩

end Nwa50ax.Wifi
