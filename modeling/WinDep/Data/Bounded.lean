/-
# Bounded caches

A cache of bounded size assigns values to keys and, when it is full, first gives
up an entry of least rank. Where the ranks of what is assigned do not fall, the
cache always holds the latest value of each of its keys, and no key that it has
given up was assigned later than a key it holds.
-/

import WinDep.Data.Latest
import WinDep.Data.MapRange

namespace WinDep.Bounded

open Latest

variable {κ α τ : Type} [LinearOrder κ] [LinearOrder τ] {rank : α → τ} {cap : ℕ} {k : κ} {a : α}
  {m m' : KeyedMap κ α} {log : List (κ × α)}

/-- What is left when there is room for a key: all, or all but an entry of least rank. -/
inductive MakesRoom (rank : α → τ) (cap : ℕ) (k : κ) (m : KeyedMap κ α) : KeyedMap κ α → Prop
  | kept (h : m.lookup k ≠ none ∨ m.size < cap) : MakesRoom rank cap k m m
  | evicted {j : κ} {v : α} (hk : m.lookup k = none) (hj : m.lookup j = some v)
      (hleast : ∀ i w, m.lookup i = some w → rank v ≤ rank w) :
      MakesRoom rank cap k m (m.erase j)

/-- The map caches what a log assigned. -/
structure Caches (rank : α → τ) (cap : ℕ) (log : List (κ × α)) (m : KeyedMap κ α) : Prop where
  bounded : m.size ≤ cap
  latest : ∀ k v, m.lookup k = some v → last Prod.fst k log = some (k, v)
  oldest : ∀ k v, last Prod.fst k log = some (k, v) → m.lookup k = none →
    ∀ j w, m.lookup j = some w → rank v ≤ rank w

theorem caches_nil : Caches rank cap ([] : List (κ × α)) KeyedMap.empty where
  bounded := Nat.zero_le _
  latest _ _ h := by cases h
  oldest _ _ h := by cases h

/-- There is room for one more key. -/
theorem MakesRoom.size_set (h : MakesRoom rank cap k m m') (hm : m.size ≤ cap) :
    (m'.set k a).size ≤ cap := by
  rw [KeyedMap.size_set]
  cases h with
  | kept h =>
    split_ifs with hnone
    · exact h.resolve_left (not_not.mpr hnone)
    · exact hm
  | @evicted j v hk hj _ =>
    have hsize : (m.erase j).size + 1 = m.size := KeyedMap.size_erase (by rw [hj]; nofun)
    split_ifs <;> omega

/-- What is left was there before. -/
theorem MakesRoom.lookup {j : κ} {v : α} (h : MakesRoom rank cap k m m')
    (hv : m'.lookup j = some v) : m.lookup j = some v := by
  cases h with
  | kept _ => exact hv
  | evicted _ _ _ =>
    rw [KeyedMap.lookup_erase] at hv
    split_ifs at hv
    exact hv

/-- What is given up has least rank. -/
theorem MakesRoom.least {j : κ} {v : α} (h : MakesRoom rank cap k m m')
    (hv : m.lookup j = some v) (hnone : m'.lookup j = none) :
    ∀ i w, m.lookup i = some w → rank v ≤ rank w := by
  cases h with
  | kept _ => rw [hv] at hnone; cases hnone
  | @evicted i u _ hu hleast =>
    rw [KeyedMap.lookup_erase] at hnone
    split_ifs at hnone with hij
    · -- the entry that was given up
      rw [hij, hu, Option.some.injEq] at hv
      exact hv ▸ hleast
    · rw [hv] at hnone; cases hnone

/-- **A step.** A cache that makes room for a key and assigns it caches the longer log, if the ranks
do not fall. -/
theorem Caches.assign (h : Caches rank cap log m) (hroom : MakesRoom rank cap k m m')
    (hrank : ∀ p ∈ log, rank p.2 ≤ rank a) : Caches rank cap (log ++ [(k, a)]) (m'.set k a) where
  bounded := hroom.size_set h.bounded
  latest j v hv := by
    rw [KeyedMap.lookup_set] at hv
    rw [last_concat]
    split_ifs at hv with hjk
    · rw [if_pos hjk.symm, hjk, Option.some.inj hv]
    · rw [if_neg (Ne.symm hjk), h.latest j v (hroom.lookup hv)]
  oldest j v hlast hnone i w hw := by
    rw [KeyedMap.lookup_set] at hnone hw
    rw [last_concat] at hlast
    split_ifs at hnone with hjk
    rw [if_neg (Ne.symm hjk)] at hlast
    split_ifs at hw with hik
    · -- what is assigned now outranks the log
      rw [← Option.some.inj hw]
      exact hrank _ (mem_of_last hlast).1
    · cases hj : m.lookup j with
      | none => exact h.oldest j v hlast hj i w (hroom.lookup hw)
      | some u =>
        -- the entry that was given up held the latest value of its key
        have hu : u = v := by
          have hboth := (h.latest j u hj).symm.trans hlast
          simpa using hboth
        exact hroom.least (hu ▸ hj) hnone i w (hroom.lookup hw)

end WinDep.Bounded
