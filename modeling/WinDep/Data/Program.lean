/-
# Programs that call their environment

A program is done, or makes a call and continues with the answer. A property of
calls holds of a program when every call it can make has it, whatever the
environment answers. An environment that serves calls from a state turns a
program into a state transformer, and what every call of a program keeps, the
program keeps.
-/

import Mathlib.Logic.Basic

namespace WinDep

/-- A program whose call `c` is answered with a value of `R c`. -/
inductive Program {C : Type} (R : C → Type) (α : Type)
  | done (a : α)
  | call (c : C) (next : R c → Program R α)

namespace Program

variable {C : Type} {R : C → Type} {α β σ : Type}

protected def bind : Program R α → (α → Program R β) → Program R β
  | done a, f => f a
  | call c next, f => call c fun r => (next r).bind f

instance : Monad (Program R) where
  pure := done
  bind := Program.bind

/-- The program that makes one call and is done with its answer. -/
def perform (c : C) : Program R (R c) := call c done

/-- Every call the program can make has the property. -/
def Always (P : C → Prop) : Program R α → Prop
  | done _ => True
  | call c next => P c ∧ ∀ r, (next r).Always P

/-- Run a program in an environment. -/
def run (serve : (c : C) → σ → R c × σ) : Program R α → σ → α × σ
  | done a, s => (a, s)
  | call c next, s => (next (serve c s).1).run serve (serve c s).2

/-- What the program gives where every call has one answer. -/
def eval (answers : (c : C) → R c) : Program R α → α
  | done a => a
  | call c next => (next (answers c)).eval answers

variable {P Q : C → Prop} {m : Program R α} {f : α → Program R β} {c : C}
  {serve : (c : C) → σ → R c × σ} {s : σ}

@[simp] theorem always_pure (a : α) : (pure a : Program R α).Always P := trivial

@[simp] theorem always_perform : (perform c : Program R (R c)).Always P ↔ P c :=
  ⟨And.left, fun h => ⟨h, fun _ => trivial⟩⟩

/-- A program that makes a call first. -/
@[simp] theorem always_perform_bind {g : R c → Program R α} :
    (perform c >>= g).Always P ↔ P c ∧ ∀ r, (g r).Always P := Iff.rfl

theorem always_bind (hm : m.Always P) (hf : ∀ a, (f a).Always P) : (m >>= f).Always P := by
  induction m with
  | done a => exact hf a
  | call c next ih => exact ⟨hm.1, fun r => ih r (hm.2 r)⟩

/-- What comes first has the property if the whole has it. -/
theorem Always.of_bind (h : (m >>= f).Always P) : m.Always P := by
  induction m with
  | done a => trivial
  | call c next ih => exact ⟨h.1, fun r => ih r (h.2 r)⟩

theorem Always.imp (hPQ : ∀ c, P c → Q c) (h : m.Always P) : m.Always Q := by
  induction m with
  | done a => trivial
  | call c next ih => exact ⟨hPQ c h.1, fun r => ih r (h.2 r)⟩

@[simp] theorem run_pure (a : α) : (pure a : Program R α).run serve s = (a, s) := rfl

@[simp] theorem run_bind :
    (m >>= f).run serve s = (f (m.run serve s).1).run serve (m.run serve s).2 := by
  induction m generalizing s with
  | done a => rfl
  | call c next ih => exact ih _

/-- **Invariants.** What every call a program can make keeps, the program keeps. -/
theorem Always.run_invariant {Inv : σ → Prop} (h : m.Always P)
    (hserve : ∀ c s, P c → Inv s → Inv (serve c s).2) (hs : Inv s) :
    Inv (m.run serve s).2 := by
  induction m generalizing s with
  | done a => exact hs
  | call c next ih => exact ih _ (h.2 _) (hserve c s h.1 hs)

variable {answers : (c : C) → R c}

@[simp] theorem eval_bind : (m >>= f).eval answers = (f (m.eval answers)).eval answers := by
  induction m with
  | done a => rfl
  | call c next ih => exact ih _

/-! ## Programs that may fail -/

theorem bind_eq_ok {ε : Type} {x : Except ε α} {f : α → Except ε β} {b : β} :
    (x >>= f) = .ok b ↔ ∃ a, x = .ok a ∧ f a = .ok b := by
  cases x with
  | error e =>
    constructor
    · intro h
      cases h
    · rintro ⟨_, ⟨⟩, -⟩
  | ok a =>
    constructor
    · intro h
      exact ⟨a, rfl, h⟩
    · rintro ⟨_, ⟨⟩, h⟩
      exact h

theorem ok_bind_iff {ε : Type} {x : Except ε α} {f : α → Except ε β} :
    (∃ b, (x >>= f) = .ok b) ↔ ∃ a, x = .ok a ∧ ∃ b, f a = .ok b := by
  simp only [bind_eq_ok]
  constructor
  · rintro ⟨b, a, ha, hb⟩
    exact ⟨a, ha, b, hb⟩
  · rintro ⟨a, ha, b, hb⟩
    exact ⟨b, a, ha, hb⟩

@[simp] theorem ok_bind {ε : Type} {a : α} {f : α → Except ε β} : (Except.ok a >>= f) = f a := rfl

/-- A list is mapped item by item, and none fails. -/
theorem mem_of_mapM {ε : Type} {f : α → Except ε β} {as : List α} {bs : List β}
    (h : as.mapM f = .ok bs) :
    (∀ b ∈ bs, ∃ a ∈ as, f a = .ok b) ∧ ∀ a ∈ as, ∃ b ∈ bs, f a = .ok b := by
  induction as generalizing bs with
  | nil =>
    cases h
    exact ⟨fun _ h => absurd h List.not_mem_nil, fun _ h => absurd h List.not_mem_nil⟩
  | cons a as ih =>
    rw [List.mapM_cons] at h
    obtain ⟨b, hb, h⟩ := bind_eq_ok.mp h
    obtain ⟨bs', hbs', h⟩ := bind_eq_ok.mp h
    cases h
    obtain ⟨hright, hleft⟩ := ih hbs'
    constructor
    · intro c hc
      rcases List.mem_cons.mp hc with rfl | hc
      · exact ⟨a, List.mem_cons_self, hb⟩
      · obtain ⟨a', ha', h⟩ := hright c hc
        exact ⟨a', List.mem_cons_of_mem a ha', h⟩
    · intro c hc
      rcases List.mem_cons.mp hc with rfl | hc
      · exact ⟨b, List.mem_cons_self, hb⟩
      · obtain ⟨b', hb', h⟩ := hleft c hc
        exact ⟨b', List.mem_cons_of_mem b hb', h⟩

theorem toOption_eq_some {ε : Type} {x : Except ε α} {a : α} :
    x.toOption = some a ↔ x = .ok a := by
  cases x <;> simp [Except.toOption]

section

variable {ε : Type} {x : ExceptT ε (Program R) α} {g : α → ExceptT ε (Program R) β}

/-- What a program may call before it fails, and then. -/
theorem always_run_bind (hx : x.run.Always P) (hg : ∀ a, (g a).run.Always P) :
    (x >>= g).run.Always P := by
  rw [ExceptT.run_bind]
  apply always_bind hx
  rintro (e | a)
  · trivial
  · exact hg a

theorem always_run_except {y : Except ε α} :
    (liftM y : ExceptT ε (Program R) α).run.Always P := trivial

/-- What a program that may fail gives, or its failure. -/
def result (answers : (c : C) → R c) (x : ExceptT ε (Program R) α) : Except ε α :=
  x.run.eval answers

@[simp] theorem result_pure (a : α) :
    result answers (pure a : ExceptT ε (Program R) α) = .ok a := rfl

@[simp] theorem result_throw (e : ε) :
    result answers (throw e : ExceptT ε (Program R) α) = .error e := rfl

@[simp] theorem result_liftExcept (y : Except ε α) :
    result answers (liftM y : ExceptT ε (Program R) α) = y := rfl

@[simp] theorem result_lift (m : Program R α) :
    result answers (ExceptT.lift m : ExceptT ε (Program R) α) = .ok (m.eval answers) := by
  change (m >>= fun a => pure (Except.ok a)).eval answers = _
  exact eval_bind

/-- Sequencing stops at a failure. -/
@[simp] theorem result_bind :
    result answers (x >>= g) = result answers x >>= fun a => result answers (g a) := by
  rw [result, ExceptT.run_bind, eval_bind, result]
  cases x.run.eval answers <;> rfl

end

end Program

end WinDep
