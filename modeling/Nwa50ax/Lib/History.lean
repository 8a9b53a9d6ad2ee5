import Mathlib.Data.List.Basic
import Mathlib.Tactic

/-!
# Histories

A history is the list of the events of a run, oldest first.  `Always P` says
that every event satisfied `P` when it happened, where `P` may look at the
events before it.
-/

namespace History

variable {α : Type} {P : List α → α → Prop} {log events : List α}

/-- Every event satisfies `P` together with the events before it. -/
def Always (P : List α → α → Prop) (log : List α) : Prop :=
  ∀ past e future, log = past ++ e :: future → P past e

theorem always_nil : Always P [] := by
  intro past e future h
  simp at h

theorem Always.snoc {e : α} (h : Always P log) (he : P log e) : Always P (log ++ [e]) := by
  intro past e' future heq
  rcases List.append_eq_append_iff.mp heq with ⟨front, hpast, hrest⟩ | ⟨front, hlog, hrest⟩
  · cases front with
    | nil =>
        simp only [List.nil_append, List.cons.injEq] at hrest
        rw [hpast, List.append_nil, ← hrest.1]
        exact he
    | cons x front =>
        simp at hrest
  · cases front with
    | nil =>
        simp only [List.nil_append, List.cons.injEq] at hrest
        rw [List.append_nil] at hlog
        rw [← hlog, hrest.1]
        exact he
    | cons x front =>
        simp only [List.cons_append, List.cons.injEq] at hrest
        rw [← hrest.1] at hlog
        exact h past e' front hlog

theorem Always.append (h : Always P log) (hevents : ∀ past, ∀ e ∈ events, P past e) :
    Always P (log ++ events) := by
  induction events generalizing log with
  | nil => simpa using h
  | cons e events ih =>
      have hone : Always P (log ++ [e]) := h.snoc (hevents _ e (by simp))
      have hall := ih hone fun past e' he' => hevents past e' (by simp [he'])
      simpa using hall

theorem Always.of_append (h : Always P (log ++ events)) : Always P log := by
  intro past e future heq
  exact h past e (future ++ events) (by simp [heq])

/-! ## Deciding -/

/-- `Always P` for the events that follow `past`. -/
def AlwaysFrom (P : List α → α → Prop) : List α → List α → Prop
  | _, [] => True
  | past, e :: log => P past e ∧ AlwaysFrom P (past ++ [e]) log

theorem Always.of_from {past : List α} (hpast : Always P past) (h : AlwaysFrom P past log) :
    Always P (past ++ log) := by
  induction log generalizing past with
  | nil => rwa [List.append_nil]
  | cons e log ih =>
      have hrest := ih (hpast.snoc h.1) h.2
      rwa [List.append_assoc] at hrest

theorem Always.to_from {past : List α} (h : Always P (past ++ log)) : AlwaysFrom P past log := by
  induction log generalizing past with
  | nil => trivial
  | cons e log ih =>
      refine ⟨h past e log rfl, ih ?_⟩
      rwa [List.append_assoc]

instance AlwaysFrom.decidable [∀ past e, Decidable (P past e)] :
    ∀ past log, Decidable (AlwaysFrom P past log)
  | _, [] => inferInstanceAs (Decidable True)
  | past, e :: log =>
      haveI := AlwaysFrom.decidable (past ++ [e]) log
      inferInstanceAs (Decidable (P past e ∧ AlwaysFrom P (past ++ [e]) log))

instance [∀ past e, Decidable (P past e)] (log : List α) : Decidable (Always P log) :=
  decidable_of_iff (AlwaysFrom P [] log)
    ⟨always_nil.of_from, fun h => Always.to_from (show Always P ([] ++ log) from h)⟩

end History
