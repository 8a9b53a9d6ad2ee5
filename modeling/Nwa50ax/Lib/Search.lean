import Mathlib.Logic.Function.Iterate
import Mathlib.Tactic

/-!
# Searching along a sequence

A loop that starts at a position, stops when it has left its range or when a
position is acceptable, and otherwise goes on to the next position.  A unit of
fuel is used for every round; the result is `none` if the fuel runs out,
`some none` if the range has been left, and `some (some a)` if `a` has been
found.
-/

namespace Search

variable {α : Type} (more accept : α → Bool) (next : α → α)

def find : ℕ → α → Option (Option α)
  | 0, _ => none
  | fuel + 1, a =>
      if more a then
        if accept a then some (some a) else find fuel (next a)
      else
        some none

def visits : ℕ → α → List α
  | 0, _ => []
  | fuel + 1, a =>
      if more a then
        a :: if accept a then [] else visits fuel (next a)
      else
        []

/-- The first `n` positions are in the range, and none of them is acceptable. -/
def Passes (a : α) (n : ℕ) : Prop :=
  ∀ m < n, more (next^[m] a) = true ∧ accept (next^[m] a) = false

variable {more accept next} {a b : α} {fuel n : ℕ}

theorem find_stop (h : more a = false) : find more accept next (fuel + 1) a = some none := by
  simp [find, h]

theorem find_accept (h : more a = true) (ha : accept a = true) :
    find more accept next (fuel + 1) a = some (some a) := by
  simp [find, h, ha]

theorem find_next (h : more a = true) (ha : accept a = false) :
    find more accept next (fuel + 1) a = find more accept next fuel (next a) := by
  simp [find, h, ha]

theorem Passes.zero : Passes more accept next a 0 := fun _ hm => absurd hm (Nat.not_lt_zero _)

theorem Passes.succ (h : more a = true) (ha : accept a = false)
    (hrest : Passes more accept next (next a) n) : Passes more accept next a (n + 1) := by
  intro m hm
  cases m with
  | zero => exact ⟨h, ha⟩
  | succ m => exact hrest m (Nat.lt_of_succ_lt_succ hm)

theorem Passes.head (h : Passes more accept next a (n + 1)) :
    more a = true ∧ accept a = false :=
  h 0 (Nat.succ_pos n)

theorem Passes.tail (h : Passes more accept next a (n + 1)) :
    Passes more accept next (next a) n :=
  fun m hm => h (m + 1) (Nat.succ_lt_succ hm)

theorem Passes.find_add (h : Passes more accept next a n) :
    find more accept next (n + fuel) a = find more accept next fuel (next^[n] a) := by
  induction n generalizing a with
  | zero => rw [Nat.zero_add, Function.iterate_zero, id]
  | succ n ih =>
      obtain ⟨hmore, haccept⟩ := h.head
      rw [Nat.succ_add, find_next hmore haccept, ih h.tail, Function.iterate_succ_apply]

theorem Passes.find_eq (h : Passes more accept next a n) (hmore : more (next^[n] a) = true)
    (haccept : accept (next^[n] a) = true) (hfuel : n < fuel) :
    find more accept next fuel a = some (some (next^[n] a)) := by
  obtain ⟨rest, rfl⟩ := Nat.exists_eq_add_of_lt hfuel
  rw [Nat.add_assoc, h.find_add, find_accept hmore haccept]

theorem find_found (h : find more accept next fuel a = some (some b)) :
    ∃ n < fuel, b = next^[n] a ∧ Passes more accept next a n ∧ more b = true ∧ accept b = true := by
  induction fuel generalizing a with
  | zero => exact absurd h (by simp [find])
  | succ fuel ih =>
      cases hmore : more a with
      | false => exact absurd h (by simp [find_stop hmore])
      | true =>
          cases haccept : accept a with
          | true =>
              rw [find_accept hmore haccept, Option.some_inj, Option.some_inj] at h
              exact ⟨0, Nat.succ_pos fuel, h.symm, .zero, h ▸ hmore, h ▸ haccept⟩
          | false =>
              rw [find_next hmore haccept] at h
              obtain ⟨n, hn, hb, hpasses, hrest⟩ := ih h
              exact ⟨n + 1, Nat.succ_lt_succ hn, hb, hpasses.succ hmore haccept, hrest⟩

theorem find_isSome (rank : α → ℕ)
    (hrank : ∀ a, more a = true → more (next a) = true → rank (next a) < rank a)
    (hfuel : rank a + 1 < fuel) : (find more accept next fuel a).isSome = true := by
  induction fuel generalizing a with
  | zero => exact absurd hfuel (Nat.not_lt_zero _)
  | succ fuel ih =>
      cases hmore : more a with
      | false => rw [find_stop hmore]; rfl
      | true =>
          cases haccept : accept a with
          | true => rw [find_accept hmore haccept]; rfl
          | false =>
              rw [find_next hmore haccept]
              cases hnext : more (next a) with
              | true =>
                  have hlt := hrank a hmore hnext
                  exact ih (by omega)
              | false =>
                  obtain ⟨rest, rfl⟩ := Nat.exists_eq_succ_of_ne_zero (show fuel ≠ 0 by omega)
                  rw [find_stop hnext]
                  rfl

theorem find_eq_none (h : ∀ n, Passes more accept next a n) (fuel : ℕ) :
    find more accept next fuel a = none := by
  have hall : find more accept next (fuel + 0) a =
      find more accept next 0 (next^[fuel] a) := (h fuel).find_add
  exact hall

theorem visits_mem (h : b ∈ visits more accept next fuel a) :
    ∃ n, b = next^[n] a ∧ Passes more accept next a n ∧ more b = true := by
  induction fuel generalizing a with
  | zero => exact absurd h (by simp [visits])
  | succ fuel ih =>
      unfold visits at h
      cases hmore : more a with
      | false => simp [hmore] at h
      | true =>
          rw [if_pos hmore, List.mem_cons] at h
          rcases h with rfl | h
          · exact ⟨0, rfl, .zero, hmore⟩
          · cases haccept : accept a with
            | true => simp [haccept] at h
            | false =>
                rw [haccept, if_neg Bool.false_ne_true] at h
                obtain ⟨n, hb, hpasses, hrest⟩ := ih h
                exact ⟨n + 1, hb, hpasses.succ hmore haccept, hrest⟩

end Search
