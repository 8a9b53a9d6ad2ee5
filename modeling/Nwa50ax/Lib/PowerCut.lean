import Mathlib.Tactic

/-!
# Programs that lose power

A machine is started again and again.  Each start issues operations on the
persistent state, which depend on the state it finds, and may lose power after
any number of them.
-/

namespace PowerCut

variable {σ ω : Type}

/-- The operations that a start issues, and what an operation does. -/
structure Machine (σ ω : Type) where
  ops : σ → List ω
  apply : ω → σ → σ

namespace Machine

variable (m : Machine σ ω)

def perform (s : σ) (ops : List ω) : σ := ops.foldl (fun s op => m.apply op s) s

def start (s : σ) (cut : ℕ) : σ := m.perform s ((m.ops s).take cut)

def run (s : σ) (cuts : List ℕ) : σ := cuts.foldl m.start s

variable {m}

@[simp] theorem perform_nil (s : σ) : m.perform s [] = s := rfl

@[simp] theorem perform_cons (s : σ) (op : ω) (ops : List ω) :
    m.perform s (op :: ops) = m.perform (m.apply op s) ops := rfl

@[simp] theorem run_nil (s : σ) : m.run s [] = s := rfl

@[simp] theorem run_cons (s : σ) (cut : ℕ) (cuts : List ℕ) :
    m.run s (cut :: cuts) = m.run (m.start s cut) cuts := rfl

theorem perform_append (s : σ) (ops ops' : List ω) :
    m.perform s (ops ++ ops') = m.perform (m.perform s ops) ops' :=
  List.foldl_append

theorem perform_invariant (Inv : σ → Prop) {ops : List ω}
    (hop : ∀ op ∈ ops, ∀ s, Inv s → Inv (m.apply op s)) {s : σ} (hs : Inv s) :
    Inv (m.perform s ops) := by
  induction ops generalizing s with
  | nil => exact hs
  | cons op ops ih =>
      refine ih (fun op' hop' => hop op' (List.mem_cons_of_mem _ hop')) ?_
      exact hop op List.mem_cons_self s hs

variable (m) in
/-- Every start of the run loses power at a point that `P` admits. -/
def Along (P : σ → ℕ → Prop) : σ → List ℕ → Prop
  | _, [] => True
  | s, cut :: cuts => P s cut ∧ Along P (m.start s cut) cuts

theorem run_invariant {Inv : σ → Prop} {P : σ → ℕ → Prop}
    (hstart : ∀ s cut, Inv s → P s cut → Inv (m.start s cut)) {cuts : List ℕ} {s : σ}
    (hs : Inv s) (halong : m.Along P s cuts) : Inv (m.run s cuts) := by
  induction cuts generalizing s with
  | nil => exact hs
  | cons cut cuts ih => exact ih (hstart s cut hs halong.1) halong.2

end Machine

end PowerCut
