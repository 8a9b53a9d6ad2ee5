import Mathlib.Order.Defs.Unbundled
import Mathlib.Tactic

/-!
# Specifications of state programs

A program over a state type `σ` is a `StateM σ`.  `Spec` is a Hoare triple and
`Keeps` says that every run is a step of a given relation; both have one rule
for each way of composing programs, so that a property of a long program is
assembled from the properties of its parts.
-/

namespace StateProgram

variable {σ α β : Type}

/-- The program establishes `Q` from every state that satisfies `P`. -/
def Spec (P : σ → Prop) (m : StateM σ α) (Q : α → σ → Prop) : Prop :=
  ∀ s, P s → Q (m s).1 (m s).2

def Keeps (R : σ → σ → Prop) (m : StateM σ α) : Prop :=
  ∀ s, R s (m s).2

def when (c : Prop) [Decidable c] (m : StateM σ Unit) : StateM σ Unit :=
  if c then m else pure ()

def runIf (c : Prop) [Decidable c] (default : α) (m : StateM σ α) : StateM σ α :=
  if c then m else pure default

@[simp] theorem pure_run (a : α) (s : σ) : (pure a : StateM σ α) s = (a, s) := rfl

@[simp] theorem bind_run (m : StateM σ α) (f : α → StateM σ β) (s : σ) :
    (m >>= f) s = f (m s).1 (m s).2 := rfl

theorem ite_run {c : Prop} [Decidable c] (m m' : StateM σ α) (s : σ) :
    (if c then m else m') s = if c then m s else m' s := by
  split <;> rfl

theorem when_run {c : Prop} [Decidable c] (m : StateM σ Unit) (s : σ) :
    when c m s = if c then m s else ((), s) :=
  ite_run m (pure ()) s

theorem runIf_run {c : Prop} [Decidable c] (a : α) (m : StateM σ α) (s : σ) :
    runIf c a m s = if c then m s else (a, s) :=
  ite_run m (pure a) s

section Spec

variable {P P' : σ → Prop} {Q Q' : α → σ → Prop}

theorem Spec.mono {m : StateM σ α} (h : Spec P m Q)
    (hpre : ∀ s, P' s → P s) (hpost : ∀ a s, Q a s → Q' a s) : Spec P' m Q' := by
  intro s hs
  exact hpost _ _ (h s (hpre s hs))

theorem Spec.post {m : StateM σ α} (h : Spec P m Q)
    (hpost : ∀ a s, Q a s → Q' a s) : Spec P m Q' :=
  h.mono (fun _ hs => hs) hpost

theorem Spec.pre {m : StateM σ α} (h : Spec P m Q)
    (hpre : ∀ s, P' s → P s) : Spec P' m Q :=
  h.mono hpre (fun _ _ hq => hq)

theorem Spec.pure {a : α} (h : ∀ s, P s → Q a s) :
    Spec P (Pure.pure a : StateM σ α) Q := by
  intro s hs
  exact h s hs

theorem Spec.bind {m : StateM σ α} {f : α → StateM σ β} {R : β → σ → Prop}
    (hm : Spec P m Q) (hf : ∀ a, Spec (Q a) (f a) R) : Spec P (m >>= f) R := by
  intro s hs
  exact hf _ _ (hm s hs)

theorem Spec.ite {c : Prop} [Decidable c] {m m' : StateM σ α}
    (hthen : c → Spec P m Q) (helse : ¬c → Spec P m' Q) :
    Spec P (if c then m else m') Q := by
  by_cases hc : c
  · simpa [hc] using hthen hc
  · simpa [hc] using helse hc

theorem Spec.when {c : Prop} [Decidable c] {m : StateM σ Unit} {Q : Unit → σ → Prop}
    (hrun : c → Spec P m Q) (hskip : ¬c → ∀ s, P s → Q () s) :
    Spec P (StateProgram.when c m) Q :=
  Spec.ite hrun fun hc => Spec.pure (hskip hc)

end Spec

section Keeps

variable {R R' : σ → σ → Prop}

theorem Keeps.mono {m : StateM σ α} (h : Keeps R m)
    (hR : ∀ s s', R s s' → R' s s') : Keeps R' m := by
  intro s
  exact hR _ _ (h s)

theorem Keeps.pure [Std.Refl R] (a : α) : Keeps R (Pure.pure a : StateM σ α) := by
  intro s
  exact Std.Refl.refl s

theorem Keeps.bind [IsTrans σ R] {m : StateM σ α} {f : α → StateM σ β}
    (hm : Keeps R m) (hf : ∀ a, Keeps R (f a)) : Keeps R (m >>= f) := by
  intro s
  exact IsTrans.trans _ _ _ (hm s) (hf _ _)

theorem Keeps.ite {c : Prop} [Decidable c] {m m' : StateM σ α}
    (hthen : c → Keeps R m) (helse : ¬c → Keeps R m') :
    Keeps R (if c then m else m') := by
  by_cases hc : c
  · simpa [hc] using hthen hc
  · simpa [hc] using helse hc

theorem Keeps.when [Std.Refl R] {c : Prop} [Decidable c] {m : StateM σ Unit}
    (h : c → Keeps R m) : Keeps R (StateProgram.when c m) :=
  Keeps.ite h fun _ => Keeps.pure ()

theorem Keeps.runIf [Std.Refl R] {c : Prop} [Decidable c] {a : α} {m : StateM σ α}
    (h : c → Keeps R m) : Keeps R (StateProgram.runIf c a m) :=
  Keeps.ite h fun _ => Keeps.pure a

end Keeps

/-- The relation `R`, for states that satisfy an invariant `P`. -/
def Under (P : σ → Prop) (R : σ → σ → Prop) (s s' : σ) : Prop :=
  P s → P s' ∧ R s s'

instance Under.instRefl {P : σ → Prop} {R : σ → σ → Prop} [Std.Refl R] :
    Std.Refl (Under P R) where
  refl s hs := ⟨hs, Std.Refl.refl s⟩

instance Under.instIsTrans {P : σ → Prop} {R : σ → σ → Prop} [IsTrans σ R] :
    IsTrans σ (Under P R) where
  trans a b c hab hbc ha := by
    obtain ⟨hb, hRab⟩ := hab ha
    obtain ⟨hc, hRbc⟩ := hbc hb
    exact ⟨hc, IsTrans.trans _ _ _ hRab hRbc⟩

end StateProgram
