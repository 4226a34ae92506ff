/-
# Executions

What a program or a handler does while no other event comes: the calls it makes,
each with its answer, and what it gives. Some answered calls are observed. A
property of what is observed of every execution whose answers are as granted is
proved along the text of a handler, each part going on with what was observed of
the parts before it.
-/

import WinDep.Data.Ensures

namespace WinDep

/-- A call with its answer. -/
structure Answered {C : Type} (R : C → Type) where
  call : C
  answer : R call

variable {σ C O α β ε : Type} {R : C → Type} {A : (c : C) → R c → Prop}
  {obs : Answered R → List O} {s s' : σ} {t : List (Answered R)} {a : α}

/-- The answers are as granted. -/
def GrantedAll (A : (c : C) → R c → Prop) (t : List (Answered R)) : Prop :=
  ∀ x ∈ t, A x.call x.answer

/-- A call of which nothing is observed. -/
def Quiet (obs : Answered R → List O) (c : C) : Prop := ∀ r, obs ⟨c, r⟩ = []

namespace Program

/-- The program makes the calls, and gives the value. -/
inductive Does : Program R α → List (Answered R) → α → Prop
  | done (a : α) : Does (.done a) [] a
  | call {c : C} {next : R c → Program R α} {r : R c} {t : List (Answered R)} {a : α}
    (h : Does (next r) t a) : Does (.call c next) (⟨c, r⟩ :: t) a

variable {m : Program R α} {S : α → Prop}

theorem Does.quiet (h : Does m t a) (hm : m.Always (Quiet obs)) : t.flatMap obs = [] := by
  induction h with
  | done a => rfl
  | call h ih => rw [List.flatMap_cons, hm.1 _, ih (hm.2 _), List.append_nil]

theorem Does.yields (h : Does m t a) (ht : GrantedAll A t) (hm : m.Yields A S) : S a := by
  induction h with
  | done a => exact hm
  | call h ih =>
    obtain ⟨hr, ht⟩ := List.forall_mem_cons.mp ht
    exact ih ht (hm _ hr)

end Program

namespace Handler

/-- The handler makes the calls, gives the value and leaves the state. -/
inductive Does : Handler σ R α → σ → List (Answered R) → α → σ → Prop
  | done (a : α) (s : σ) : Does (.done a) s [] a s
  | change {f : σ → σ} {next : σ → Handler σ R α} {s s' : σ} {t : List (Answered R)} {a : α}
    (h : Does (next (f s)) (f s) t a s') : Does (.call (.change f) next) s t a s'
  | call {c : C} {next : R c → Handler σ R α} {r : R c} {s s' : σ} {t : List (Answered R)} {a : α}
    (h : Does (next r) s t a s') : Does (.call (.call c) next) s (⟨c, r⟩ :: t) a s'
  | pump {next : Unit → Handler σ R α} {s s' : σ} {t : List (Answered R)} {a : α}
    (h : Does (next ()) s t a s') : Does (.call .pump next) s t a s'

variable {m : Handler σ R α} {f : α → Handler σ R β}

theorem exists_does_of_bind {b : β} (h : Does (m >>= f) s t b s') :
    ∃ t₁ a s₁ t₂, Does m s t₁ a s₁ ∧ Does (f a) s₁ t₂ b s' ∧ t = t₁ ++ t₂ := by
  induction m generalizing s t with
  | done a => exact ⟨[], a, s, t, .done a s, h, rfl⟩
  | call op next ih =>
    cases op with
    | change g =>
      cases h with
      | change h =>
        obtain ⟨t₁, a, s₁, t₂, h₁, h₂, ht⟩ := ih _ h
        exact ⟨t₁, a, s₁, t₂, .change h₁, h₂, ht⟩
    | call c =>
      cases h with
      | @call _ _ r _ _ _ _ h =>
        obtain ⟨t₁, a, s₁, t₂, h₁, h₂, rfl⟩ := ih r h
        exact ⟨⟨c, r⟩ :: t₁, a, s₁, t₂, .call h₁, h₂, rfl⟩
    | pump =>
      cases h with
      | pump h =>
        obtain ⟨t₁, a, s₁, t₂, h₁, h₂, ht⟩ := ih () h
        exact ⟨t₁, a, s₁, t₂, .pump h₁, h₂, ht⟩

theorem does_of_ofCalls {y : Program R α} (h : Does (ofCalls y) s t a s') :
    y.Does t a ∧ s' = s := by
  induction y generalizing t with
  | done b =>
    cases h
    exact ⟨.done a, rfl⟩
  | call c next ih =>
    cases h with
    | call h =>
      obtain ⟨hdoes, hs⟩ := ih _ h
      exact ⟨.call hdoes, hs⟩

/-- The execution in which every call has one answer. -/
def play (answers : (c : C) → R c) : Handler σ R α → σ → List (Answered R) × α × σ
  | .done a, s => ([], a, s)
  | .call (.change f) next, s => play answers (next (f s)) (f s)
  | .call (.call c) next, s =>
    let (t, a, s') := play answers (next (answers c)) s
    (⟨c, answers c⟩ :: t, a, s')
  | .call .pump next, s => play answers (next ()) s

theorem does_play (answers : (c : C) → R c) (m : Handler σ R α) (s : σ) :
    Does m s (play answers m s).1 (play answers m s).2.1 (play answers m s).2.2 := by
  induction m generalizing s with
  | done a => exact .done a s
  | call op next ih =>
    cases op with
    | change f => exact .change (ih (f s) (f s))
    | call c => exact .call (ih (answers c) s)
    | pump => exact .pump (ih () s)

theorem granted_play {answers : (c : C) → R c} (h : ∀ c, A c (answers c)) (m : Handler σ R α)
    (s : σ) : GrantedAll A (play answers m s).1 := by
  induction m generalizing s with
  | done a => exact fun _ h => absurd h List.not_mem_nil
  | call op next ih =>
    cases op with
    | change f => exact ih (f s) (f s)
    | call c => exact List.forall_mem_cons.mpr ⟨h c, ih (answers c) s⟩
    | pump => exact ih () s

/-- What is observed of every execution whose answers are as granted has the property. -/
def After (obs : Answered R → List O) (A : (c : C) → R c → Prop) (m : Handler σ R α)
    (Q : List O → α → σ → Prop) (s : σ) : Prop :=
  ∀ t a s', Does m s t a s' → GrantedAll A t → Q (t.flatMap obs) a s'

variable {Q : List O → β → σ → Prop} {Q' Q'' : List O → α → σ → Prop}

theorem after_pure (h : Q' [] a s) : After obs A (pure a : Handler σ R α) Q' s := by
  intro t b s' hdoes _
  cases hdoes
  exact h

theorem After.mono (h : After obs A m Q' s) (hQ : ∀ l a s', Q' l a s' → Q'' l a s') :
    After obs A m Q'' s := fun t a s' hdoes ht => hQ _ a s' (h t a s' hdoes ht)

/-- Sequencing: what comes next adds what is observed of it. -/
theorem after_bind
    (h : After obs A m (fun l a s' => After obs A (f a) (fun l' => Q (l ++ l')) s') s) :
    After obs A (m >>= f) Q s := by
  intro t b s' hdoes ht
  obtain ⟨t₁, a, s₁, t₂, h₁, h₂, rfl⟩ := exists_does_of_bind hdoes
  obtain ⟨ht₁, ht₂⟩ := List.forall_mem_append.mp ht
  rw [List.flatMap_append]
  exact h t₁ a s₁ h₁ ht₁ t₂ b s' h₂ ht₂

/-- A call that is made first. -/
theorem after_call {c : C} {next : R c → Handler σ R α}
    (h : ∀ r, A c r → After obs A (next r) (fun l => Q' (obs ⟨c, r⟩ ++ l)) s) :
    After obs A (.call (.call c) next) Q' s := by
  intro t a s' hdoes ht
  cases hdoes with
  | call hdoes =>
    obtain ⟨hr, ht⟩ := List.forall_mem_cons.mp ht
    exact h _ hr _ a s' hdoes ht

/-! ## Handlers that may fail -/

section

variable {x : ExceptT ε (Handler σ R) α} {g : α → ExceptT ε (Handler σ R) β}
  {y : ExceptT ε (Program R) α} {S : α → Prop} {Q : List O → Except ε β → σ → Prop}
  {Q' : List O → Except ε α → σ → Prop}

theorem after_run_bind
    (h : After obs A x.run (fun l r s' => match r with
      | .ok a => After obs A (g a).run (fun l' => Q (l ++ l')) s'
      | .error e => Q l (.error e) s') s) : After obs A (x >>= g).run Q s := by
  rw [ExceptT.run_bind]
  refine after_bind (h.mono ?_)
  rintro l (e | a) s' h
  · exact after_pure (by rwa [List.append_nil])
  · exact h

/-- Calls of which nothing is observed. -/
theorem after_run_calls (hy : y.run.Always (Quiet obs)) (hS : Program.Returns A S y)
    (h : ∀ r, (∀ a, r = .ok a → S a) → Q' [] r s) :
    After obs A (liftM y : ExceptT ε (Handler σ R) α).run Q' s := by
  intro t r s' hdoes ht
  obtain ⟨hprogram, rfl⟩ := does_of_ofCalls hdoes
  rw [hprogram.quiet hy]
  exact h r (hprogram.yields ht hS)

theorem after_calls_bind (hy : y.run.Always (Quiet obs)) (hS : Program.Returns A S y)
    (herror : ∀ e, Q [] (.error e) s) (hok : ∀ a, S a → After obs A (g a).run Q s) :
    After obs A ((liftM y : ExceptT ε (Handler σ R) α) >>= g).run Q s := by
  refine after_run_bind (after_run_calls hy hS ?_)
  rintro (e | a) h
  · exact herror e
  · exact hok a (h a rfl)

theorem after_except_bind {y : Except ε α} (herror : ∀ e, Q [] (.error e) s)
    (hok : ∀ a, y = .ok a → After obs A (g a).run Q s) :
    After obs A ((liftM y : ExceptT ε (Handler σ R) α) >>= g).run Q s := by
  apply after_run_bind
  apply after_pure
  cases y with
  | error e => exact herror e
  | ok a => exact hok a rfl

theorem after_change_bind {f : σ → σ} {g : σ → ExceptT ε (Handler σ R) β}
    (h : After obs A (g (f s)).run Q (f s)) :
    After obs A ((ExceptT.lift (change f) : ExceptT ε (Handler σ R) σ) >>= g).run Q s := by
  apply after_run_bind
  intro t a s' hdoes ht
  cases hdoes with
  | change hdoes =>
    cases hdoes
    exact h

end

end Handler

end WinDep
