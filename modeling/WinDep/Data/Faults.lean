/-
# Programs whose calls go wrong

Each call a program makes has an outcome. A process makes calls while there are
outcomes, and dies at the call that has none, so that a list of outcomes says both
which calls fail and where the process dies. A part of a program that demands that
every call goes well to succeed can have succeeded in one way only: as it does
where nothing goes wrong.
-/

import WinDep.Data.Program
import Mathlib.Data.List.Basic

namespace WinDep

/-- What a process leaves: its result if it came to its end, the outcomes of the calls it did not
make, and the state. -/
structure Left (O α σ : Type) where
  result : Option α
  outcomes : List O
  state : σ

namespace Program

variable {C : Type} {R : C → Type} {O α β σ : Type} (serve : O → (c : C) → σ → R c × σ)

/-- Run a program until it is done or dies. -/
def play : Program R α → List O → σ → Left O α σ
  | done a, os, s => ⟨some a, os, s⟩
  | call _ _, [], s => ⟨none, [], s⟩
  | call c next, o :: os, s => (next (serve o c s).1).play os (serve o c s).2

/-- The number of calls a program makes. -/
def calls (serve : (c : C) → σ → R c × σ) : Program R α → σ → ℕ
  | done _, _ => 0
  | call c next, s => (next (serve c s).1).calls serve (serve c s).2 + 1

/-- A program can succeed only if every call it makes goes well. -/
def Demands (good : O) (ok : α → Prop) (m : Program R α) (s : σ) : Prop :=
  ∀ os a, (m.play serve os s).result = some a → ok a →
    ∃ os', os = List.replicate (m.calls (serve good) s) good ++ os'

/-- A program cannot succeed. -/
def Fails (ok : α → Prop) (m : Program R α) : Prop :=
  ∀ os s a, (m.play serve os s).result = some a → ¬ ok a

variable {serve} {P : C → Prop} {m : Program R α} {f : α → Program R β} {c : C} {s : σ}
  {os : List O} {good : O} {ok : α → Prop} {ok' : β → Prop} {a : α}

@[simp] theorem play_pure : (pure a : Program R α).play serve os s = ⟨some a, os, s⟩ := rfl

@[simp] theorem play_perform_nil : (perform c : Program R (R c)).play serve [] s = ⟨none, [], s⟩ :=
  rfl

@[simp] theorem play_perform_cons (o : O) : (perform c : Program R (R c)).play serve (o :: os) s =
    ⟨some (serve o c s).1, os, (serve o c s).2⟩ := rfl

/-- What follows goes on where the first part has come to its end. -/
theorem play_bind_of_some (h : (m.play serve os s).result = some a) :
    (m >>= f).play serve os s =
      (f a).play serve (m.play serve os s).outcomes (m.play serve os s).state := by
  induction m generalizing os s with
  | done a' =>
    obtain rfl : a' = a := Option.some.inj h
    rfl
  | call c next ih =>
    cases os with
    | nil => cases h
    | cons o os => exact ih _ h

/-- What follows is not begun where the process died before. -/
theorem play_bind_of_none (h : (m.play serve os s).result = none) :
    (m >>= f).play serve os s =
      ⟨none, (m.play serve os s).outcomes, (m.play serve os s).state⟩ := by
  induction m generalizing os s with
  | done a' => cases h
  | call c next ih =>
    cases os with
    | nil => rfl
    | cons o os => exact ih _ h

theorem result_bind_eq_some {b : β} (h : ((m >>= f).play serve os s).result = some b) :
    ∃ a, (m.play serve os s).result = some a ∧
      ((f a).play serve (m.play serve os s).outcomes (m.play serve os s).state).result =
        some b := by
  cases hm : (m.play serve os s).result with
  | none =>
    rw [play_bind_of_none hm] at h
    cases h
  | some a => exact ⟨a, rfl, by rw [← play_bind_of_some hm, h]⟩

/-- What follows without a call leaves the state. -/
theorem state_bind_pure {g : α → β} :
    ((m >>= fun a => pure (g a)).play serve os s).state = (m.play serve os s).state := by
  cases h : (m.play serve os s).result with
  | none => rw [play_bind_of_none h]
  | some a => rw [play_bind_of_some h, play_pure]

@[simp] theorem calls_pure {serve : (c : C) → σ → R c × σ} :
    (pure a : Program R α).calls serve s = 0 := rfl

@[simp] theorem calls_perform {serve : (c : C) → σ → R c × σ} :
    (perform c : Program R (R c)).calls serve s = 1 := rfl

@[simp] theorem calls_bind {serve : (c : C) → σ → R c × σ} : (m >>= f).calls serve s =
    m.calls serve s + (f (m.run serve s).1).calls serve (m.run serve s).2 := by
  induction m generalizing s with
  | done a => exact (Nat.zero_add _).symm
  | call c next ih =>
    change ((next _) >>= f).calls serve _ + 1 = (next _).calls serve _ + 1 + _
    rw [ih]
    exact Nat.add_right_comm _ _ _

/-- Where every call goes well, a process comes to its end. -/
theorem play_replicate : m.play serve (List.replicate (m.calls (serve good) s) good ++ os) s =
    ⟨some (m.run (serve good) s).1, os, (m.run (serve good) s).2⟩ := by
  induction m generalizing s with
  | done a => rfl
  | call c next ih =>
    rw [calls, List.replicate_succ, List.cons_append]
    exact ih _

/-- What every call a program can make keeps, whatever its outcome, the process keeps. -/
theorem Always.play_invariant {Inv : σ → Prop} (h : m.Always P)
    (hserve : ∀ o c s, P c → Inv s → Inv (serve o c s).2) (hs : Inv s) :
    Inv (m.play serve os s).state := by
  induction m generalizing os s with
  | done a => exact hs
  | call c next ih =>
    cases os with
    | nil => exact hs
    | cons o os => exact ih _ (h.2 _) (hserve o c s h.1 hs)

/-! ## Programs that demand that all goes well -/

theorem fails_pure (h : ¬ ok a) : Fails serve ok (pure a : Program R α) := by
  rintro os s a' ⟨⟩
  exact h

theorem fails_bind (h : ∀ a, Fails serve ok' (f a)) : Fails serve ok' (m >>= f) := by
  intro os s b hb
  obtain ⟨a, -, hrest⟩ := result_bind_eq_some hb
  exact h a _ _ b hrest

theorem Fails.demands (h : Fails serve ok m) : Demands serve good ok m s :=
  fun os a ha hok => absurd hok (h os s a ha)

theorem demands_pure : Demands serve good ok (pure a : Program R α) s :=
  fun os _ _ _ => ⟨os, rfl⟩

theorem demands_perform {ok : R c → Prop} (h : ∀ o, o ≠ good → ¬ ok (serve o c s).1) :
    Demands serve good ok (perform c : Program R (R c)) s := by
  intro os a ha hok
  cases os with
  | nil => cases ha
  | cons o os =>
    obtain rfl : (serve o c s).1 = a := Option.some.inj ha
    have ho : o = good := by
      by_contra hne
      exact h o hne hok
    exact ⟨os, by rw [ho]; rfl⟩

/-- **One way to succeed.** A program that has succeeded did what it does where nothing goes
wrong. -/
theorem Demands.play_eq (h : Demands serve good ok m s)
    (ha : (m.play serve os s).result = some a) (hok : ok a) :
    ∃ os', os = List.replicate (m.calls (serve good) s) good ++ os' ∧
      a = (m.run (serve good) s).1 ∧
      m.play serve os s = ⟨some a, os', (m.run (serve good) s).2⟩ := by
  obtain ⟨os', hos⟩ := h os a ha hok
  have hplay : m.play serve os s =
      ⟨some (m.run (serve good) s).1, os', (m.run (serve good) s).2⟩ := by
    rw [hos, play_replicate]
  rw [hplay] at ha
  obtain rfl := Option.some.inj ha
  exact ⟨os', hos, rfl, hplay⟩

theorem demands_bind (hm : Demands serve good ok m s)
    (hf : Demands serve good ok' (f (m.run (serve good) s).1) (m.run (serve good) s).2)
    (hbad : ∀ a, ¬ ok a → Fails serve ok' (f a)) : Demands serve good ok' (m >>= f) s := by
  intro os b hb hok'
  obtain ⟨a, ha, hrest⟩ := result_bind_eq_some hb
  by_cases hok : ok a
  · obtain ⟨os₁, rfl, rfl, hplay⟩ := hm.play_eq ha hok
    rw [hplay] at hrest
    obtain ⟨os₂, hos₂⟩ := hf _ b hrest hok'
    refine ⟨os₂, ?_⟩
    rw [calls_bind, List.replicate_add, List.append_assoc, ← hos₂]
  · exact absurd hok' (hbad a hok _ _ b hrest)

end Program

end WinDep
