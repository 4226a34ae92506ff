/-
# What holds at every moment

A process can die at any call, so what a program is to keep is asked of every
moment of it, and what it gives of its end. Such a specification is proved as the
program is composed. A meter beside the state reads every call and changes nothing
else, so that a specification can speak of what the state does not show.
-/

import WinDep.Data.Faults

namespace WinDep.Program

variable {C : Type} {R : C → Type} {O α β σ μ : Type} (serve : O → (c : C) → σ → R c × σ)

/-- Whatever the outcomes of its calls, the program keeps `I` at every moment, and `Q` holds where
it comes to its end. -/
def Throughout (I : σ → Prop) (m : Program R α) (s : σ) (Q : α → σ → Prop) : Prop :=
  ∀ os, I (m.play serve os s).state ∧
    ∀ a, (m.play serve os s).result = some a → Q a (m.play serve os s).state

variable {serve} {I : σ → Prop} {m : Program R α} {f : α → Program R β} {c : C} {s : σ}
  {Q : α → σ → Prop} {Q' : β → σ → Prop} {good : O}

theorem throughout_pure {a : α} (hI : I s) (hQ : Q a s) : Throughout serve I (pure a) s Q := by
  rintro os
  refine ⟨hI, ?_⟩
  rintro a' ⟨⟩
  exact hQ

theorem throughout_perform {Q : R c → σ → Prop} (hI : I s)
    (h : ∀ o, I (serve o c s).2 ∧ Q (serve o c s).1 (serve o c s).2) :
    Throughout serve I (perform c) s Q := by
  rintro (_ | ⟨o, os⟩)
  · exact ⟨hI, nofun⟩
  · refine ⟨(h o).1, ?_⟩
    rintro r ⟨⟩
    exact (h o).2

/-- What comes first establishes what the rest starts from. -/
theorem throughout_bind (hm : Throughout serve I m s Q)
    (hf : ∀ a s', I s' → Q a s' → Throughout serve I (f a) s' Q') :
    Throughout serve I (m >>= f) s Q' := by
  intro os
  cases hresult : (m.play serve os s).result with
  | none =>
    rw [play_bind_of_none hresult]
    exact ⟨(hm os).1, nofun⟩
  | some a =>
    rw [play_bind_of_some hresult]
    exact hf a _ (hm os).1 ((hm os).2 a hresult) _

/-- Where every call goes well, the result is what the specification says. -/
theorem Throughout.run (h : Throughout serve I m s Q) :
    Q (m.run (serve good) s).1 (m.run (serve good) s).2 := by
  obtain ⟨-, hend⟩ := h (List.replicate (m.calls (serve good) s) good ++ [])
  rw [play_replicate] at hend
  exact hend _ rfl

/-! ## Meters -/

section

variable (count : O → (c : C) → R c → μ → μ)

/-- Serve calls and keep a meter, which may depend on how each call went. -/
def metered (serve : O → (c : C) → σ → R c × σ) (o : O) (c : C) (s : σ × μ) : R c × σ × μ :=
  ((serve o c s.1).1, (serve o c s.1).2, count o c (serve o c s.1).1 s.2)

variable {count} {k : μ}

/-- **Erasure.** A meter changes nothing but itself. -/
theorem run_metered : (m.run (metered count serve good) (s, k)).1 = (m.run (serve good) s).1 ∧
    (m.run (metered count serve good) (s, k)).2.1 = (m.run (serve good) s).2 := by
  induction m generalizing s k with
  | done a => exact ⟨rfl, rfl⟩
  | call c next ih => exact ih _

end

end WinDep.Program
