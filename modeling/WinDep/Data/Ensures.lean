/-
# Handlers that keep an invariant

Where every change of the shared state keeps an invariant, it holds at every
call, whenever other events come, and at rest, and no handler has to rely on
more. What is left to say of a handler is what it gives, and that does not
depend on the state: the rules follow the text of a handler line by line. The
environment may be granted to answer its calls in some ways only.
-/

import WinDep.Data.EventLoop

namespace WinDep

namespace Program

variable {C : Type} {R : C → Type} {α β ε : Type} {A : (c : C) → R c → Prop} {P : α → Prop}
  {Q : β → Prop}

/-- Whatever the environment answers of what is granted, what the program gives has the
property. -/
def Yields (A : (c : C) → R c → Prop) (P : α → Prop) : Program R α → Prop
  | done a => P a
  | call c next => ∀ r, A c r → (next r).Yields A P

theorem yields_bind {m : Program R α} {f : α → Program R β} (hm : m.Yields A P)
    (hf : ∀ a, P a → (f a).Yields A Q) : (m >>= f).Yields A Q := by
  induction m with
  | done a => exact hf a hm
  | call c next ih => exact fun r hr => ih r (hm r hr)

theorem yields_of_forall (m : Program R α) (h : ∀ a, P a) : m.Yields A P := by
  induction m with
  | done a => exact h a
  | call c next ih => exact fun r _ => ih r

/-- What the program gives has the property, if it does not fail. -/
def Returns (A : (c : C) → R c → Prop) (P : α → Prop) (x : ExceptT ε (Program R) α) : Prop :=
  x.run.Yields A fun r => ∀ a, r = .ok a → P a

theorem returns_any (x : ExceptT ε (Program R) α) : Returns A (fun _ => True) x :=
  yields_of_forall _ fun _ _ _ => trivial

theorem returns_except {y : Except ε α} (h : ∀ a, y = .ok a → P a) :
    Returns A P (liftM y : ExceptT ε (Program R) α) := h

theorem returns_bind {x : ExceptT ε (Program R) α} {g : α → ExceptT ε (Program R) β}
    (hx : Returns A P x) (hg : ∀ a, P a → Returns A Q (g a)) : Returns A Q (x >>= g) := by
  unfold Returns
  rw [ExceptT.run_bind]
  apply yields_bind hx
  rintro (e | a) h
  · intro b hb
    cases hb
  · exact hg a (h a rfl)

end Program

namespace Handler

variable {σ C : Type} {R : C → Type} {α β ε : Type} {A : (c : C) → R c → Prop} {I : σ → Prop}
  {P : α → Prop} {Q : β → Prop}

/-- A handler whose calls are answered as it is granted. -/
def granted (A : (c : C) → R c → Prop) : Handler σ R α → Handler σ (fun c => {r : R c // A c r}) α
  | .done a => .done a
  | .call (.change f) next => .call (.change f) fun s => granted A (next s)
  | .call (.call c) next => .call (.call c) fun r => granted A (next r.1)
  | .call .pump next => .call .pump fun u => granted A (next u)

theorem granted_bind {m : Handler σ R α} {f : α → Handler σ R β} :
    granted A (m >>= f) = granted A m >>= fun a => granted A (f a) := by
  induction m with
  | done a => rfl
  | call op next ih =>
    cases op with
    | change f => exact congrArg (Program.call (.change f)) (funext fun s => ih s)
    | call c => exact congrArg (Program.call (.call c)) (funext fun r => ih r.1)
    | pump => exact congrArg (Program.call .pump) (funext fun u => ih u)

/-- The invariant holds at every call and whenever other events may come. -/
def keeping (I : σ → Prop) : Discipline σ := ⟨I, I, fun _ _ => True⟩

/-- Where answers are as granted, the handler keeps the invariant, and what it gives has the
property, if it does not fail. -/
def Ensures (A : (c : C) → R c → Prop) (I : σ → Prop) (P : α → Prop)
    (x : ExceptT ε (Handler σ R) α) : Prop :=
  ∀ s, I s → wp (keeping I) (granted A x.run) (fun r s' => I s' ∧ ∀ a, r = .ok a → P a) s

/-- The handler keeps the invariant. -/
abbrev Preserves (A : (c : C) → R c → Prop) (I : σ → Prop) (x : ExceptT ε (Handler σ R) α) : Prop :=
  Ensures A I (fun _ => True) x

theorem ensures_pure {a : α} (h : P a) :
    Ensures A I P (pure a : ExceptT ε (Handler σ R) α) := by
  intro s hs
  refine ⟨hs, fun b hb => ?_⟩
  cases hb
  exact h

theorem ensures_throw {e : ε} : Ensures A I P (throw e : ExceptT ε (Handler σ R) α) :=
  fun _ hs => ⟨hs, fun _ hb => by cases hb⟩

theorem ensures_except {y : Except ε α} (h : ∀ a, y = .ok a → P a) :
    Ensures A I P (liftM y : ExceptT ε (Handler σ R) α) := fun _ hs => ⟨hs, h⟩

theorem ensures_bind {x : ExceptT ε (Handler σ R) α} {g : α → ExceptT ε (Handler σ R) β}
    (hx : Ensures A I P x) (hg : ∀ a, P a → Ensures A I Q (g a)) : Ensures A I Q (x >>= g) := by
  intro s hs
  rw [ExceptT.run_bind, granted_bind, wp_bind]
  apply (hx s hs).mono
  rintro (e | a) s' ⟨hs', h⟩
  · exact ⟨hs', fun b hb => by cases hb⟩
  · exact hg a (h a rfl) s' hs'

/-- A change that keeps the invariant. -/
theorem preserves_change {f : σ → σ} (hf : ∀ s, I s → I (f s)) :
    Preserves A I (ExceptT.lift (change f) : ExceptT ε (Handler σ R) σ) :=
  fun s hs => ⟨hf s hs, fun _ _ => trivial⟩

/-- What other events leave is a state in which the invariant holds. -/
theorem preserves_pump : Preserves A I (ExceptT.lift pump : ExceptT ε (Handler σ R) Unit) :=
  fun _ hs => ⟨hs, fun _ hs' _ => ⟨hs', fun _ _ => trivial⟩⟩

theorem wp_ofCalls_of_yields {D : Discipline σ} {m : Program R α} {s : σ}
    {Q : α → σ → Prop} (hs : D.safe s) (hm : m.Yields A P) (hQ : ∀ a, P a → Q a s) :
    wp D (granted A (ofCalls m)) Q s := by
  induction m with
  | done a => exact hQ a hm
  | call c next ih => exact ⟨hs, fun r => ih r.1 (hm r.1 r.2)⟩

theorem ensures_calls {y : ExceptT ε (Program R) α} (hy : Program.Returns A P y) :
    Ensures A I P (liftM y : ExceptT ε (Handler σ R) α) :=
  fun _ hs => wp_ofCalls_of_yields hs hy fun _ h => ⟨hs, h⟩

/-- A handler that calls first, and goes on with any answer. -/
theorem ensures_calls_bind {y : ExceptT ε (Program R) α} {g : α → ExceptT ε (Handler σ R) β}
    (hg : ∀ a, Ensures A I Q (g a)) :
    Ensures A I Q ((liftM y : ExceptT ε (Handler σ R) α) >>= g) :=
  ensures_bind (ensures_calls (Program.returns_any y)) fun a _ => hg a

/-- A handler that computes first. -/
theorem ensures_except_bind {y : Except ε α} {g : α → ExceptT ε (Handler σ R) β}
    (hg : ∀ a, y = .ok a → Ensures A I Q (g a)) :
    Ensures A I Q ((liftM y : ExceptT ε (Handler σ R) α) >>= g) :=
  ensures_bind (ensures_except fun _ h => h) hg

theorem Ensures.attempt {x : ExceptT ε (Handler σ R) α} (hx : Ensures A I P x) :
    Ensures A I (fun r => ∀ a, r = .ok a → P a) (attempt x) := by
  intro s hs
  change wp (keeping I) (granted A (x.run >>= fun r => pure (Except.ok r))) _ s
  rw [granted_bind, wp_bind]
  apply (hx s hs).mono
  intro r s' h
  refine ⟨h.1, fun r' hr' => ?_⟩
  cases hr'
  exact h.2

/-- What the handler gives or its failure is dropped. -/
theorem Ensures.drop {x : ExceptT ε (Handler σ R) α} (hx : Ensures A I P x) {s : σ} (hs : I s) :
    wp (keeping I) (granted A (do let _ ← x.run)) (fun _ => I) s := by
  rw [granted_bind, wp_bind]
  exact (hx s hs).mono fun _ _ h => h.1

end Handler

/-! ## Runs with granted answers -/

variable {σ C ε : Type} {R : C → Type}

/-- An event that may come, or answers that are granted. -/
def Input.Granted (E : ε → Prop) (A : (c : C) → R c → Prop) : Input ε R → Prop
  | .event e => E e
  | .answer r => ∀ c, A c (r c)
  | .pumped => True

namespace Loop

variable {A : (c : C) → R c → Prop} {handler : ε → σ → Handler σ R Unit}

def Frame.granted (A : (c : C) → R c → Prop) : Frame σ R → Frame σ fun c => {r : R c // A c r}
  | .blocked c next => .blocked c fun r => Handler.granted A (next r.1)
  | .pumping next => .pumping (Handler.granted A next)

def granted (A : (c : C) → R c → Prop) (l : Loop σ R) : Loop σ fun c => {r : R c // A c r} :=
  ⟨l.shared, l.frames.map (Frame.granted A)⟩

theorem granted_advance (frames : List (Frame σ R)) (m : Handler σ R Unit) (s : σ) :
    granted A (advance frames m s) =
      advance (frames.map (Frame.granted A)) (Handler.granted A m) s := by
  induction m generalizing s with
  | done a => rfl
  | call op next ih =>
    cases op with
    | change f => exact ih (f s) (f s)
    | call c => rfl
    | pump => rfl

/-- A step under granted answers is one of the granted loop. -/
theorem exists_granted_step {E : ε → Prop} (l : Loop σ R) {i : Input ε R} (hi : i.Granted E A) :
    ∃ i' : Input {e // E e} fun c => {r : R c // A c r}, granted A (step handler l i) =
      step (fun e s => Handler.granted A (handler e.1 s)) (granted A l) i' := by
  obtain ⟨s, frames⟩ := l
  cases i with
  | event e =>
    refine ⟨.event ⟨e, hi⟩, ?_⟩
    match frames with
    | [] => exact granted_advance _ _ _
    | .blocked c next :: frames => rfl
    | .pumping next :: frames => exact granted_advance _ _ _
  | answer r =>
    refine ⟨.answer fun c => ⟨r c, hi c⟩, ?_⟩
    match frames with
    | [] => rfl
    | .blocked c next :: frames => exact granted_advance _ _ _
    | .pumping next :: frames => rfl
  | pumped =>
    refine ⟨.pumped, ?_⟩
    match frames with
    | [] => rfl
    | .blocked c next :: frames => rfl
    | .pumping next :: frames => exact granted_advance _ _ _

/-- **Invariants.** What the handlers of the events keep where answers are as granted holds in
every state of such a run. -/
theorem run_keeping {E : ε → Prop} {I : σ → Prop}
    (h : ∀ e s, E e → I s →
      Handler.wp (Handler.keeping I) (Handler.granted A (handler e s)) (fun _ => I) s)
    (inputs : List (Input ε R)) (hinputs : ∀ i ∈ inputs, i.Granted E A) {s : σ} (hs : I s) :
    I (run handler inputs s).shared := by
  have hkeeps : Keeps (fun (e : {e // E e}) s => Handler.granted A (handler e.1 s))
      (Handler.keeping I) I := {
    at_rest := fun e s hs => h e.1 s e.2 hs
    on_top := fun e s hs => (h e.1 s e.2 hs).mono fun _ _ hs' => ⟨hs', trivial⟩
    trans := fun _ _ _ _ _ => trivial
    refl := fun _ => trivial }
  have hstep : ∀ (l : Loop σ R) (i : Input ε R), Ready (Handler.keeping I) I (granted A l) →
      i.Granted E A → Ready (Handler.keeping I) I (granted A (step handler l i)) := by
    intro l i hl hi
    obtain ⟨i', hi'⟩ := exists_granted_step l hi
    rw [hi']
    exact ready_step hkeeps _ i' hl
  have hready : Ready (Handler.keeping I) I (granted A (run handler inputs s)) :=
    @Runs.Along.invariant _ _ _ _ _ _ (fun l => Ready (Handler.keeping I) I (granted A l))
      (Runs.along_of_forall hinputs) hstep hs
  -- only the innermost handler says what holds now
  revert hready
  generalize run handler inputs s = l
  obtain ⟨s, frames⟩ := l
  intro hready
  match frames, hready with
  | [], h => exact h
  | .blocked _ _ :: _, h => exact h.1
  | .pumping _ :: _, h => exact h.1

end Loop

end WinDep
