import Mathlib.Logic.Function.Basic
import Mathlib.Tactic

/-!
# Sequences of writes to a table
-/

namespace Writes

variable {κ ν : Type} [DecidableEq κ]

def writeAll (writes : List (κ × ν)) (table : κ → Option ν) : κ → Option ν :=
  writes.foldl (fun table w => Function.update table w.1 (some w.2)) table

variable {writes : List (κ × ν)} {table : κ → Option ν} {key : κ}

theorem writeAll_cons (w : κ × ν) :
    writeAll (w :: writes) table = writeAll writes (Function.update table w.1 (some w.2)) := rfl

theorem writeAll_other (h : ∀ w ∈ writes, w.1 ≠ key) : writeAll writes table key = table key := by
  induction writes generalizing table with
  | nil => rfl
  | cons w writes ih =>
      rw [writeAll_cons, ih (fun w' hw' => h w' (List.mem_cons_of_mem w hw')),
        Function.update_of_ne (h w List.mem_cons_self).symm]

theorem writeAll_agree {value : ν} (hmem : ∃ w ∈ writes, w.1 = key)
    (h : ∀ w ∈ writes, w.1 = key → w.2 = value) : writeAll writes table key = some value := by
  induction writes generalizing table with
  | nil =>
      obtain ⟨w, hw, -⟩ := hmem
      cases hw
  | cons w writes ih =>
      have hagree : ∀ w' ∈ writes, w'.1 = key → w'.2 = value :=
        fun w' hw' => h w' (List.mem_cons_of_mem w hw')
      rw [writeAll_cons]
      by_cases hlater : ∃ w' ∈ writes, w'.1 = key
      · exact ih hlater hagree
      · push Not at hlater
        obtain ⟨w', hw', hkey⟩ := hmem
        -- The only write to the key is the first one.
        have hfirst : w.1 = key := by
          rcases List.mem_cons.mp hw' with rfl | hw'
          · exact hkey
          · exact absurd hkey (hlater w' hw')
        rw [writeAll_other hlater, hfirst, Function.update_self, h w List.mem_cons_self hfirst]

end Writes
