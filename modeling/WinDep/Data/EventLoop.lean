/-
# Handlers on an event loop

A handler changes the state it shares with the other handlers, calls the
environment, and may let the loop take other events before it goes on. A call
blocks the loop until it is answered. While a handler pumps the loop, the
handlers of other events run on top of it, and it goes on when they are done.

The weakest precondition of a handler is taken under a discipline: what holds at
every call, what holds when other events may come, and what those events may do
to the state. Handlers that keep to the discipline keep it in every run.
-/

import WinDep.Data.Program
import WinDep.Data.Runs

namespace WinDep

/-- What a handler does next. -/
inductive Op (σ C : Type)
  | change (f : σ → σ)
  | call (c : C)
  | pump

/-- What a handler goes on with: the changed state, or the answer. -/
def Op.Answer (σ : Type) {C : Type} (R : C → Type) : Op σ C → Type
  | .change _ => σ
  | .call c => R c
  | .pump => Unit

abbrev Handler (σ : Type) {C : Type} (R : C → Type) (α : Type) := Program (Op.Answer σ R) α

namespace Handler

variable {σ C : Type} {R : C → Type} {α β : Type}

def change (f : σ → σ) : Handler σ R σ := .call (.change f) .done

def pump : Handler σ R Unit := .call .pump .done

/-- A program that only calls, as a handler. -/
def ofCalls : Program R α → Handler σ R α
  | .done a => .done a
  | .call c next => .call (.call c) fun r => ofCalls (next r)

/-! ## Weakest preconditions -/

/-- What handlers keep to: `safe` holds at every call, `idle` when the loop may take other
events, and these change the state as `rely` allows. -/
structure Discipline (σ : Type) where
  safe : σ → Prop
  idle : σ → Prop
  rely : σ → σ → Prop

variable {D : Discipline σ} {m : Handler σ R α} {f : α → Handler σ R β} {Q Q' : α → σ → Prop}
  {s : σ}

/-- The handler keeps to the discipline from the state, and ends in `Q`. -/
def wp (D : Discipline σ) : Handler σ R α → (α → σ → Prop) → σ → Prop
  | .done a, Q, s => Q a s
  | .call (.change f) next, Q, s => wp D (next (f s)) Q (f s)
  | .call (.call _) next, Q, s => D.safe s ∧ ∀ r, wp D (next r) Q s
  | .call .pump next, Q, s => D.idle s ∧ ∀ s', D.idle s' → D.rely s s' → wp D (next ()) Q s'

@[simp] theorem wp_pure (a : α) : wp D (pure a : Handler σ R α) Q s ↔ Q a s := Iff.rfl

/-- Sequencing. -/
@[simp] theorem wp_bind {Q : β → σ → Prop} :
    wp D (m >>= f) Q s ↔ wp D m (fun a => wp D (f a) Q) s := by
  induction m generalizing s with
  | done a => exact Iff.rfl
  | call op next ih =>
    cases op with
    | change f => exact ih (f s)
    | call c => exact and_congr_right fun _ => forall_congr' fun r => ih r
    | pump =>
      exact and_congr_right fun _ => forall_congr' fun s' =>
        imp_congr_right fun _ => imp_congr_right fun _ => ih ()

theorem wp.mono (h : wp D m Q s) (hQ : ∀ a s, Q a s → Q' a s) : wp D m Q' s := by
  induction m generalizing s with
  | done a => exact hQ a s h
  | call op next ih =>
    cases op with
    | change f => exact ih (f s) h
    | call c => exact ⟨h.1, fun r => ih r (h.2 r)⟩
    | pump => exact ⟨h.1, fun s' hs' hrely => ih () (h.2 s' hs' hrely)⟩

/-- Calls change nothing: whatever is answered, the state is the one before. -/
theorem wp_ofCalls {m : Program R α} (hs : D.safe s) (hQ : ∀ a, Q a s) :
    wp D (ofCalls m) Q s := by
  induction m with
  | done a => exact hQ a
  | call c next ih => exact ⟨hs, fun r => ih r⟩

/-! ## Handlers that may fail -/

section

variable {ε : Type} {x : ExceptT ε (Handler σ R) α} {g : α → ExceptT ε (Handler σ R) β}

/-- What the program that only calls gives, or its failure, as a handler's. -/
instance : MonadLift (ExceptT ε (Program R)) (ExceptT ε (Handler σ R)) :=
  ⟨fun m => ExceptT.mk (ofCalls m.run)⟩

/-- What is run, with its failure as a value. -/
def attempt (x : ExceptT ε (Handler σ R) α) : ExceptT ε (Handler σ R) (Except ε α) :=
  ExceptT.lift x.run

/-- Sequencing stops at a failure. -/
@[simp] theorem wp_run_bind {Q : Except ε β → σ → Prop} :
    wp D (x >>= g).run Q s ↔
      wp D x.run (fun
        | .ok a => wp D (g a).run Q
        | .error e => Q (.error e)) s := by
  rw [ExceptT.run_bind, wp_bind]
  apply iff_of_eq
  congr 1
  funext r
  cases r <;> rfl

@[simp] theorem wp_run_lift {Q : Except ε α → σ → Prop} :
    wp D (ExceptT.lift m : ExceptT ε (Handler σ R) α).run Q s ↔ wp D m (fun a => Q (.ok a)) s := by
  change wp D (m >>= fun a => pure (Except.ok a)) Q s ↔ _
  exact wp_bind

@[simp] theorem wp_run_attempt {Q : Except ε (Except ε α) → σ → Prop} :
    wp D (attempt x).run Q s ↔ wp D x.run (fun r => Q (.ok r)) s := wp_run_lift

theorem wp_run_calls {y : ExceptT ε (Program R) α} {Q : Except ε α → σ → Prop} (hs : D.safe s)
    (hQ : ∀ r, Q r s) : wp D (liftM y : ExceptT ε (Handler σ R) α).run Q s := wp_ofCalls hs hQ

end

/-! ## Handlers alone -/

/-- What a handler gives where every call has one answer and no other event comes. -/
def alone (answers : (c : C) → R c) : Handler σ R α → σ → α
  | .done a, _ => a
  | .call (.change f) next, s => alone answers (next (f s)) (f s)
  | .call (.call c) next, s => alone answers (next (answers c)) s
  | .call .pump next, s => alone answers (next ()) s

section

variable {ε : Type} {answers : (c : C) → R c} {g : α → ExceptT ε (Handler σ R) β}

theorem alone_ofCalls_bind {m : Program R α} :
    alone answers (ofCalls m >>= f) s = alone answers (f (m.eval answers)) s := by
  induction m with
  | done a => rfl
  | call c next ih => exact ih (answers c)

/-- A handler that calls first goes on with what the calls give. -/
theorem alone_calls_bind {y : ExceptT ε (Program R) α} :
    alone answers ((liftM y : ExceptT ε (Handler σ R) α) >>= g).run s =
      Program.result answers y >>= fun a => alone answers (g a).run s := by
  change alone answers (ofCalls y.run >>= _) s = _
  rw [alone_ofCalls_bind, Program.result]
  cases y.run.eval answers <;> rfl

theorem alone_attempt_bind {y : ExceptT ε (Program R) α}
    {g : Except ε α → ExceptT ε (Handler σ R) β} :
    alone answers ((attempt (liftM y : ExceptT ε (Handler σ R) α)) >>= g).run s =
      alone answers (g (Program.result answers y)).run s := by
  change alone answers ((ofCalls y.run >>= fun a => pure (Except.ok a)) >>= _) s = _
  rw [Program.result]
  induction y.run with
  | done a => rfl
  | call c next ih => exact ih (answers c)

theorem alone_except_bind {y : Except ε α} :
    alone answers ((liftM y : ExceptT ε (Handler σ R) α) >>= g).run s =
      y >>= fun a => alone answers (g a).run s := by
  cases y <;> rfl

end

end Handler

/-! ## The loop -/

/-- A handler that has not ended: it waits for an answer, or pumps the loop. -/
inductive Frame (σ : Type) {C : Type} (R : C → Type)
  | blocked (c : C) (next : R c → Handler σ R Unit)
  | pumping (next : Handler σ R Unit)

/-- The shared state and the handlers that have not ended, the innermost first. -/
structure Loop (σ : Type) {C : Type} (R : C → Type) where
  shared : σ
  frames : List (Frame σ R)

/-- What happens to the loop: an event, the answer to the call it is blocked on, or the end of
the pumping. The answer is given for every call, and the one that is waited for is used. -/
inductive Input (ε : Type) {C : Type} (R : C → Type)
  | event (e : ε)
  | answer (r : (c : C) → R c)
  | pumped

namespace Loop

variable {σ C ε : Type} {R : C → Type}

/-- Run a handler until it ends, calls or pumps. -/
def advance (frames : List (Frame σ R)) : Handler σ R Unit → σ → Loop σ R
  | .done _, s => ⟨s, frames⟩
  | .call (.change f) next, s => advance frames (next (f s)) (f s)
  | .call (.call c) next, s => ⟨s, .blocked c next :: frames⟩
  | .call .pump next, s => ⟨s, .pumping (next ()) :: frames⟩

/-- An event waits until the loop is not blocked; an answer nobody waits for is none. -/
def step (handler : ε → σ → Handler σ R Unit) (l : Loop σ R) : Input ε R → Loop σ R
  | .event e =>
    match l.frames with
    | .blocked _ _ :: _ => l
    | frames => advance frames (handler e l.shared) l.shared
  | .answer r =>
    match l.frames with
    | .blocked c next :: frames => advance frames (next (r c)) l.shared
    | _ => l
  | .pumped =>
    match l.frames with
    | .pumping next :: frames => advance frames next l.shared
    | _ => l

def run (handler : ε → σ → Handler σ R Unit) (inputs : List (Input ε R)) (s : σ) : Loop σ R :=
  Runs.run (step handler) inputs ⟨s, []⟩

/-- Every handler that has not ended goes on as the discipline wants it, and when all have ended
the state is at rest. -/
def Resumes (D : Handler.Discipline σ) (Rest : σ → Prop) : List (Frame σ R) → σ → Prop
  | [], s => Rest s
  | .blocked _ next :: frames, s =>
    D.safe s ∧ ∀ r, Handler.wp D (next r) (fun _ => Resumes D Rest frames) s
  | .pumping next :: frames, s =>
    D.idle s ∧ ∀ s', D.idle s' → D.rely s s' →
      Handler.wp D next (fun _ => Resumes D Rest frames) s'

def Ready (D : Handler.Discipline σ) (Rest : σ → Prop) (l : Loop σ R) : Prop :=
  Resumes D Rest l.frames l.shared

/-- The handlers of all events keep to the discipline, from a state at rest and on top of a
handler that pumps. -/
structure Keeps (handler : ε → σ → Handler σ R Unit) (D : Handler.Discipline σ)
    (Rest : σ → Prop) : Prop where
  at_rest : ∀ e s, Rest s → Handler.wp D (handler e s) (fun _ => Rest) s
  on_top : ∀ e s, D.idle s →
    Handler.wp D (handler e s) (fun _ s' => D.idle s' ∧ D.rely s s') s
  trans : ∀ s s' s'', D.rely s s' → D.rely s' s'' → D.rely s s''
  refl : ∀ s, D.rely s s

variable {handler : ε → σ → Handler σ R Unit} {D : Handler.Discipline σ} {Rest : σ → Prop}
  {frames : List (Frame σ R)} {m : Handler σ R Unit} {s : σ}

theorem ready_advance (h : Handler.wp D m (fun _ => Resumes D Rest frames) s) :
    Ready D Rest (advance frames m s) := by
  induction m generalizing s with
  | done a => exact h
  | call op next ih =>
    cases op with
    | change f => exact ih (f s) h
    | call c => exact h
    | pump => exact h

/-- One input keeps the loop ready. -/
theorem ready_step (hkeeps : Keeps handler D Rest) (l : Loop σ R) (input : Input ε R)
    (h : Ready D Rest l) : Ready D Rest (step handler l input) := by
  obtain ⟨s, frames⟩ := l
  cases input with
  | event e =>
    match frames, h with
    | [], h => exact ready_advance (hkeeps.at_rest e s h)
    -- a blocked loop takes no event
    | .blocked c next :: frames, h => exact h
    | .pumping next :: frames, ⟨hidle, hnext⟩ =>
      -- what the event does is something the pumping handler relies on
      apply ready_advance
      apply (hkeeps.on_top e s hidle).mono
      intro _ s' hs'
      exact ⟨hs'.1, fun s'' hidle'' hrely => hnext s'' hidle'' (hkeeps.trans _ _ _ hs'.2 hrely)⟩
  | answer r =>
    match frames, h with
    | [], h => exact h
    | .blocked c next :: frames, ⟨_, hnext⟩ => exact ready_advance (hnext (r c))
    | .pumping next :: frames, h => exact h
  | pumped =>
    match frames, h with
    | [], h => exact h
    | .blocked c next :: frames, h => exact h
    | .pumping next :: frames, ⟨hidle, hnext⟩ =>
      exact ready_advance (hnext s hidle (hkeeps.refl s))

/-- **Runs.** Handlers that keep to the discipline keep it in every run from a state at rest. -/
theorem Keeps.ready_run (hkeeps : Keeps handler D Rest) (inputs : List (Input ε R))
    (hs : Rest s) : Ready D Rest (run handler inputs s) :=
  Runs.invariant inputs (ready_step hkeeps) hs

/-- What holds at every call, at every pumping and at rest holds in every state of a run. -/
theorem Keeps.run_invariant {Inv : σ → Prop} (hkeeps : Keeps handler D Rest)
    (hsafe : ∀ s, D.safe s → Inv s) (hidle : ∀ s, D.idle s → Inv s) (hrest : ∀ s, Rest s → Inv s)
    (inputs : List (Input ε R)) (hs : Rest s) : Inv (run handler inputs s).shared := by
  have hready := hkeeps.ready_run inputs hs
  -- only the innermost handler says what holds now
  revert hready
  generalize run handler inputs s = l
  obtain ⟨s, frames⟩ := l
  intro hready
  match frames, hready with
  | [], h => exact hrest s h
  | .blocked _ _ :: _, h => exact hsafe s h.1
  | .pumping _ :: _, h => exact hidle s h.1

end Loop

end WinDep
