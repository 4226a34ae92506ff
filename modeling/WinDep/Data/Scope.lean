/-
# Dynamic scope under a limit on the depth of calls

A call pushes a frame with the names it binds, and a name is looked up from the
innermost frame outwards: a block sees what the calls around it bind when it
runs, not what was bound where it was written. Every call uses up one level of a
depth that the host allows. A call that can only lead to deeper calls of its own
kind exhausts any depth.
-/

import Mathlib.Data.Nat.Init
import Mathlib.Data.Set.Defs

namespace WinDep.Scope

variable {ν α β δ : Type*}

/-- What a call binds. -/
abbrev Bindings (ν α : Type*) := ν → Option α

/-- The frames of the calls under way, the innermost first. -/
abbrev Frames (ν α : Type*) := List (Bindings ν α)

/-- What a name stands for in a block that runs in these frames. -/
def resolve (x : ν) : Frames ν α → Option α
  | [] => none
  | f :: fs => (f x).or (resolve x fs)

variable {x : ν} {f : Bindings ν α} {fs : Frames ν α}

/-- A frame that binds the name hides the frames around it. -/
theorem resolve_of_binds {a : α} (h : f x = some a) : resolve x (f :: fs) = some a := by
  rw [resolve, h, Option.some_or]

/-- A frame that does not bind the name is looked through. -/
theorem resolve_of_unbound (h : f x = none) : resolve x (f :: fs) = resolve x fs := by
  rw [resolve, h, Option.none_or]

/-- **Descent.** Where every computation of a kind fails for want of depth, or is a computation of
the same kind at less depth, it fails at every depth. -/
theorem fails_of_descends (run : ℕ → δ → β) (S : Set δ) (failed : β → Prop)
    (hstep : ∀ n, ∀ d ∈ S, failed (run n d) ∨ ∃ m < n, ∃ e ∈ S, run n d = run m e) (n : ℕ) :
    ∀ d ∈ S, failed (run n d) := by
  induction n using Nat.strong_induction_on with
  | _ n ih =>
    intro d hd
    obtain h | ⟨m, hm, e, he, heq⟩ := hstep n d hd
    · exact h
    · rw [heq]
      exact ih m hm e he

end WinDep.Scope
