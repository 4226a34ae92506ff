/-
# Runs

A system takes one step for each event of a list. A condition may be asked of
every step, on the state before it; what each such step keeps holds after every
run. A part of a system that runs alone repeats its own step.
-/

import Mathlib.Data.List.Basic
import Mathlib.Logic.Function.Iterate

namespace WinDep.Runs

variable {σ ε : Type*} {step : σ → ε → σ} {C : σ → ε → Prop} {s : σ} {es es' : List ε}

/-- The state after the events. -/
def run (step : σ → ε → σ) (es : List ε) (s : σ) : σ := es.foldl step s

/-- The condition holds at every step of the run. -/
def Along (step : σ → ε → σ) (C : σ → ε → Prop) : List ε → σ → Prop
  | [], _ => True
  | e :: es, s => C s e ∧ Along step C es (step s e)

instance decidableAlong [∀ s e, Decidable (C s e)] :
    (es : List ε) → (s : σ) → Decidable (Along step C es s)
  | [], _ => isTrue trivial
  | _ :: es, _ =>
    have := decidableAlong es
    inferInstanceAs (Decidable (_ ∧ _))

@[simp] theorem run_nil : run step [] s = s := rfl

@[simp] theorem run_cons (e : ε) : run step (e :: es) s = run step es (step s e) := rfl

@[simp] theorem run_concat (e : ε) : run step (es ++ [e]) s = step (run step es s) e := by
  simp [run]

theorem along_concat {e : ε} :
    Along step C (es ++ [e]) s ↔ Along step C es s ∧ C (run step es s) e := by
  induction es generalizing s with
  | nil => simp [Along, run]
  | cons e' es ih => rw [List.cons_append, Along, ih, Along, run_cons, and_assoc]

theorem along_of_forall {P : ε → Prop} (h : ∀ e ∈ es, P e) :
    Along step (fun _ e => P e) es s := by
  induction es generalizing s with
  | nil => trivial
  | cons e es ih =>
    obtain ⟨he, hes⟩ := List.forall_mem_cons.mp h
    exact ⟨he, ih hes⟩

/-- **Invariants.** What every step under the condition keeps, every such run keeps. -/
theorem Along.invariant {Inv : σ → Prop} (h : Along step C es s)
    (hstep : ∀ s e, Inv s → C s e → Inv (step s e)) (hs : Inv s) : Inv (run step es s) := by
  induction es generalizing s with
  | nil => exact hs
  | cons e es ih => exact ih h.2 (hstep s e hs h.1)

theorem invariant {Inv : σ → Prop} (es : List ε) (hstep : ∀ s e, Inv s → Inv (step s e))
    (hs : Inv s) : Inv (run step es s) := by
  induction es generalizing s with
  | nil => exact hs
  | cons e es ih => exact ih (hstep s e hs)

/-- Repeating a step leads from one state to another. -/
def Leads (f : σ → σ) (s s' : σ) : Prop := ∃ k : ℕ, f^[k] s = s'

variable {f : σ → σ} {s' s'' : σ}

theorem Leads.refl (s : σ) : Leads f s s := ⟨0, rfl⟩

theorem Leads.head (h : Leads f (f s) s') : Leads f s s' := by
  obtain ⟨k, rfl⟩ := h
  exact ⟨k + 1, Function.iterate_succ_apply f k s⟩

theorem Leads.trans (h : Leads f s s') (h' : Leads f s' s'') : Leads f s s'' := by
  obtain ⟨k, rfl⟩ := h
  obtain ⟨m, rfl⟩ := h'
  exact ⟨m + k, Function.iterate_add_apply f m k s⟩

/-- A run of one event repeated is the iteration of its step, seen through `view`. -/
theorem run_replicate {τ : Type*} (view : σ → τ) {g : τ → τ} {e : ε}
    (h : ∀ s, view (step s e) = g (view s)) (k : ℕ) (s : σ) :
    view (run step (List.replicate k e) s) = g^[k] (view s) := by
  induction k generalizing s with
  | zero => rfl
  | succ k ih => rw [List.replicate_succ, run_cons, ih, h, Function.iterate_succ_apply]

end WinDep.Runs
