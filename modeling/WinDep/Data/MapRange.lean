/-
# Ranging over a map

A program that ranges over a map visits its pairs in an order of the runtime's
choosing. An order is a permutation of the pairs, another one for every loop.
Assigning what is visited to a second map gives the same map for every order,
since the keys are distinct.
-/

import WinDep.Data.KeyedList
import Mathlib.Data.List.Perm.Subperm

namespace WinDep

open KeyedList

variable {κ α : Type} [LinearOrder κ]

/-- A finite map, as its pairs in key order. -/
structure KeyedMap (κ α : Type) [LinearOrder κ] where
  pairs : List (κ × α)
  ordered : Ordered pairs

/-- The order in which one loop visits the pairs of a map. -/
structure RangeOrder (κ : Type) where
  visit : {α : Type} → List (κ × α) → List (κ × α)
  perm : ∀ {α : Type} (l : List (κ × α)), (visit l).Perm l

namespace KeyedMap

variable {m m' : KeyedMap κ α} {l l' : List (κ × α)} {k j : κ} {v : α}

def empty : KeyedMap κ α := ⟨[], ordered_nil⟩

def lookup (m : KeyedMap κ α) (k : κ) : Option α := m.pairs.lookup k

def set (m : KeyedMap κ α) (k : κ) (v : α) : KeyedMap κ α :=
  ⟨KeyedList.set k v m.pairs, ordered_set m.ordered⟩

def erase (m : KeyedMap κ α) (k : κ) : KeyedMap κ α :=
  ⟨KeyedList.erase k m.pairs, ordered_erase m.ordered⟩

def size (m : KeyedMap κ α) : ℕ := m.pairs.length

/-- Assign the pairs in the order they are listed. -/
def assign (m : KeyedMap κ α) (l : List (κ × α)) : KeyedMap κ α :=
  l.foldl (fun m p => m.set p.1 p.2) m

@[ext] theorem ext (h : ∀ k, m.lookup k = m'.lookup k) : m = m' := by
  have hpairs := ext_lookup m.ordered m'.ordered h
  cases m
  cases m'
  simpa using hpairs

@[simp] theorem lookup_empty : (empty : KeyedMap κ α).lookup k = none := rfl

@[simp] theorem lookup_set : (m.set k v).lookup j = if j = k then some v else m.lookup j :=
  KeyedList.lookup_set

@[simp] theorem lookup_erase : (m.erase k).lookup j = if j = k then none else m.lookup j :=
  KeyedList.lookup_erase m.ordered

theorem size_set : (m.set k v).size = if m.lookup k = none then m.size + 1 else m.size :=
  length_set m.ordered

theorem size_erase (h : m.lookup k ≠ none) : (m.erase k).size + 1 = m.size := length_erase h

theorem pairs_eq_nil_iff : m.pairs = [] ↔ ∀ k, m.lookup k = none := by
  constructor
  · intro h k
    rw [lookup, h, List.lookup_nil]
  · intro h
    have hempty : m = empty := ext h
    rw [hempty]
    rfl

/-! ## Lists with distinct keys -/

theorem nodup_keys (m : KeyedMap κ α) : (m.pairs.map Prod.fst).Nodup :=
  List.Pairwise.imp (fun hlt => hlt.ne) (List.pairwise_map.mpr m.ordered)

/-- Of more keys than the map has, one is not assigned. -/
theorem exists_lookup_eq_none {keys : List κ} (hkeys : keys.Nodup) (h : m.size < keys.length) :
    ∃ k ∈ keys, m.lookup k = none := by
  have hmissing : ∃ k ∈ keys, k ∉ m.pairs.map Prod.fst := by
    by_contra hall
    simp only [not_exists, not_and, not_not] at hall
    have hlength := (hkeys.subperm hall).length_le
    rw [List.length_map] at hlength
    exact absurd hlength (not_le.mpr h)
  obtain ⟨k, hk, hnot⟩ := hmissing
  exact ⟨k, hk, lookup_eq_none_of_not_mem hnot⟩

theorem lookup_assign (h : (l.map Prod.fst).Nodup) :
    (m.assign l).lookup k = (l.lookup k).or (m.lookup k) := by
  induction l generalizing m with
  | nil => rfl
  | cons p l ih =>
    obtain ⟨hp, hl⟩ := List.nodup_cons.mp h
    change ((m.set p.1 p.2).assign l).lookup k = _
    rw [ih hl, lookup_set, lookup_cons_ite]
    split_ifs with hk
    · -- no later pair assigns the key again
      have hnone : l.lookup k = none := lookup_eq_none_of_not_mem (hk ▸ hp)
      rw [hnone, Option.none_or, Option.some_or]
    · rfl

end KeyedMap

namespace RangeOrder

variable (o : RangeOrder κ) {m m' : KeyedMap κ α} {k : κ} {p : κ × α}

theorem nodup_visit (m : KeyedMap κ α) : ((o.visit m.pairs).map Prod.fst).Nodup :=
  ((o.perm _).map Prod.fst).nodup_iff.mpr m.nodup_keys

theorem lookup_visit : (o.visit m.pairs).lookup k = m.lookup k :=
  KeyedList.lookup_perm (o.perm _) m.nodup_keys

theorem mem_visit : p ∈ o.visit m.pairs ↔ m.lookup p.1 = some p.2 := by
  rw [(o.perm _).mem_iff]
  exact (lookup_eq_some_iff m.ordered).symm

/-- **Copying a map.** Whatever the order, the copied pairs win over what was there. -/
theorem lookup_assign_visit :
    (m'.assign (o.visit m.pairs)).lookup k = (m.lookup k).or (m'.lookup k) := by
  rw [KeyedMap.lookup_assign (o.nodup_visit m), o.lookup_visit]

/-- Copying only the pairs whose key is selected. -/
theorem lookup_assign_filter (keep : κ → Bool) :
    (m'.assign ((o.visit m.pairs).filter fun p => keep p.1)).lookup k =
      ((m.lookup k).filter fun _ => keep k).or (m'.lookup k) := by
  have hsub : ((o.visit m.pairs).filter fun p => keep p.1).Sublist (o.visit m.pairs) :=
    List.filter_sublist
  rw [KeyedMap.lookup_assign ((o.nodup_visit m).sublist (hsub.map Prod.fst))]
  congr 1
  apply Option.ext
  intro v
  rw [lookup_eq_some_iff_of_nodup ((o.nodup_visit m).sublist (hsub.map Prod.fst)),
    List.mem_filter, o.mem_visit, Option.filter_eq_some_iff]

end RangeOrder

end WinDep
