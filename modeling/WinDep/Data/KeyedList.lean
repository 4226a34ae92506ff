/-
# Lists of pairs in key order

A finite map is represented by its pairs, listed in strictly increasing key
order. The order makes the representation canonical: two ordered lists that
answer every lookup alike are equal, so equality of maps is equality of lists.

The operations are assignment, overlaying one map on another, and rewriting
every value by a partial function of its key and value, which may drop the pair.
-/

import Mathlib.Data.List.Pairwise
import Mathlib.Order.Lattice

namespace WinDep.KeyedList

/-! ## Lists with distinct keys -/

section

variable {κ α : Type*} [BEq κ] [LawfulBEq κ] {k : κ} {v : α} {l l' : List (κ × α)}

theorem lookup_eq_none_of_not_mem (h : k ∉ l.map Prod.fst) : l.lookup k = none := by
  rw [List.lookup_eq_none_iff]
  intro p hp
  have hne : k ≠ p.1 := fun hk => h (hk ▸ List.mem_map_of_mem hp)
  simpa using hne

variable [DecidableEq κ]

theorem lookup_cons_ite {p : κ × α} :
    (p :: l).lookup k = if k = p.1 then some p.2 else l.lookup k := by
  rw [List.lookup_cons]
  by_cases hk : k = p.1
  · simp [hk]
  · rw [if_neg hk, show (k == p.1) = false by simpa using hk]

theorem mem_of_lookup_eq_some : ∀ {m : List (κ × α)}, m.lookup k = some v → (k, v) ∈ m
  | [], h => by simp at h
  | (k', v') :: m, h => by
    rw [lookup_cons_ite] at h
    split_ifs at h with hk
    · simp_all
    · exact List.mem_cons_of_mem _ (mem_of_lookup_eq_some h)

theorem lookup_eq_some_iff_of_nodup (h : (l.map Prod.fst).Nodup) :
    l.lookup k = some v ↔ (k, v) ∈ l := by
  refine ⟨mem_of_lookup_eq_some, fun hmem => ?_⟩
  induction l with
  | nil => simp at hmem
  | cons p l ih =>
    obtain ⟨hp, hl⟩ := List.nodup_cons.mp h
    rcases List.mem_cons.mp hmem with rfl | hmem
    · simp
    · -- a later pair has another key than the first
      have hne : k ≠ p.1 := fun hk => hp (hk ▸ List.mem_map.mpr ⟨_, hmem, rfl⟩)
      rw [lookup_cons_ite, if_neg hne]
      exact ih hl hmem

theorem lookup_perm (hl : l.Perm l') (h : (l'.map Prod.fst).Nodup) :
    l.lookup k = l'.lookup k := by
  have h' : (l.map Prod.fst).Nodup := (hl.map Prod.fst).nodup_iff.mpr h
  apply Option.ext
  intro v
  rw [lookup_eq_some_iff_of_nodup h', lookup_eq_some_iff_of_nodup h, hl.mem_iff]

end

/-! ## Ordered lists -/

variable {κ α β γ : Type*} [LinearOrder κ] {j k : κ} {v : α} {m m' : List (κ × α)}

/-- The pairs are listed in strictly increasing key order. -/
def Ordered (m : List (κ × α)) : Prop := m.Pairwise fun p q => p.1 < q.1

@[simp] theorem ordered_nil : Ordered ([] : List (κ × α)) := List.Pairwise.nil

@[simp] theorem ordered_cons {p : κ × α} :
    Ordered (p :: m) ↔ (∀ q ∈ m, p.1 < q.1) ∧ Ordered m := List.pairwise_cons

/-- A key below every listed key is not assigned. -/
theorem lookup_eq_none_of_lt (h : ∀ q ∈ m, k < q.1) : m.lookup k = none := by
  rw [List.lookup_eq_none_iff]
  intro q hq
  simpa using (h q hq).ne

theorem lookup_of_mem (hm : Ordered m) (h : (k, v) ∈ m) : m.lookup k = some v := by
  induction m with
  | nil => simp at h
  | cons p m ih =>
    obtain ⟨hlt, hm⟩ := ordered_cons.mp hm
    rcases List.mem_cons.mp h with rfl | hmem
    · simp
    · rw [lookup_cons_ite, if_neg (hlt _ hmem).ne']
      exact ih hm hmem

theorem lookup_eq_some_iff (hm : Ordered m) : m.lookup k = some v ↔ (k, v) ∈ m :=
  ⟨mem_of_lookup_eq_some, lookup_of_mem hm⟩

/-- **Extensionality.** Ordered lists that answer every lookup alike are equal. -/
theorem ext_lookup (hm : Ordered m) (hm' : Ordered m')
    (h : ∀ k, m.lookup k = m'.lookup k) : m = m' := by
  have antisymm (p q : κ × α) (_ : p ∈ m) (_ : q ∈ m') (hpq : p.1 < q.1) (hqp : q.1 < p.1) :
      p = q := absurd hpq hqp.asymm
  -- both lists hold the pairs that the lookups answer, each once
  have distinct {l : List (κ × α)} (hl : Ordered l) : l.Nodup :=
    List.Pairwise.imp (fun hlt heq => hlt.ne (congrArg Prod.fst heq)) hl
  apply List.Perm.eq_of_pairwise antisymm hm hm'
  rw [List.perm_ext_iff_of_nodup (distinct hm) (distinct hm')]
  rintro ⟨k, v⟩
  rw [← lookup_eq_some_iff hm, ← lookup_eq_some_iff hm', h]

/-- The value of a key, by the equality of the order. -/
def value (k : κ) (m : List (κ × α)) : Option α := m.lookup k

theorem mem_of_value (h : value k m = some v) : (k, v) ∈ m := mem_of_lookup_eq_some h

theorem value_of_mem (hm : Ordered m) (h : (k, v) ∈ m) : value k m = some v := lookup_of_mem hm h

/-! ## Assignment -/

/-- Assign `v` to `k`, keeping the pairs in key order. -/
def set (k : κ) (v : α) : List (κ × α) → List (κ × α)
  | [] => [(k, v)]
  | (k', v') :: m =>
    if k < k' then (k, v) :: (k', v') :: m
    else if k = k' then (k, v) :: m
    else (k', v') :: set k v m

theorem mem_set {p : κ × α} (h : p ∈ set k v m) : p = (k, v) ∨ p ∈ m := by
  induction m with
  | nil => simpa [set] using h
  | cons q m ih =>
    simp only [set] at h
    split_ifs at h with hlt heq
    · simpa using h
    · rcases List.mem_cons.mp h with rfl | h
      · exact Or.inl rfl
      · exact Or.inr (List.mem_cons_of_mem _ h)
    · rcases List.mem_cons.mp h with rfl | h
      · exact Or.inr List.mem_cons_self
      · exact (ih h).imp_right (List.mem_cons_of_mem _)

theorem ordered_set (hm : Ordered m) : Ordered (set k v m) := by
  induction m with
  | nil => simp [set]
  | cons q m ih =>
    obtain ⟨hlt, hm⟩ := ordered_cons.mp hm
    simp only [set]
    -- the key comes before the head, is the head's, or goes further down
    split_ifs with hk heq
    · refine ordered_cons.mpr ⟨?_, ordered_cons.mpr ⟨hlt, hm⟩⟩
      intro p hp
      rcases List.mem_cons.mp hp with rfl | hp
      · exact hk
      · exact hk.trans (hlt p hp)
    · exact ordered_cons.mpr ⟨fun p hp => heq ▸ hlt p hp, hm⟩
    · refine ordered_cons.mpr ⟨fun p hp => ?_, ih hm⟩
      rcases mem_set hp with rfl | hp
      · exact lt_of_le_of_ne (not_lt.mp hk) (Ne.symm heq)
      · exact hlt p hp

theorem lookup_set : (set k v m).lookup j = if j = k then some v else m.lookup j := by
  induction m with
  | nil => rw [set, lookup_cons_ite]
  | cons q m ih =>
    simp only [set]
    split_ifs with hlt heq hj hj hj
    all_goals simp_all [lookup_cons_ite]

theorem set_of_lt (h : ∀ q ∈ m, k < q.1) : set k v m = (k, v) :: m := by
  cases m with
  | nil => rfl
  | cons q m => rw [set, if_pos (h q List.mem_cons_self)]

theorem value_set : value j (set k v m) = if j = k then some v else value j m := lookup_set

theorem length_set (hm : Ordered m) :
    (set k v m).length = if m.lookup k = none then m.length + 1 else m.length := by
  induction m with
  | nil => rfl
  | cons q m ih =>
    obtain ⟨hlt, hm⟩ := ordered_cons.mp hm
    rw [set, lookup_cons_ite]
    by_cases hk : k < q.1
    · -- a key below the head is not assigned
      have hnone : m.lookup k = none := lookup_eq_none_of_lt fun p hp => hk.trans (hlt p hp)
      rw [if_pos hk, if_neg hk.ne, if_pos hnone]
      rfl
    · rw [if_neg hk]
      by_cases heq : k = q.1
      · rw [if_pos heq, if_pos heq, if_neg (Option.some_ne_none _)]
        rfl
      · rw [if_neg heq, if_neg heq, List.length_cons, ih hm]
        split_ifs <;> rfl

/-! ## Removal -/

/-- Remove the pair of a key. -/
def erase (k : κ) : List (κ × α) → List (κ × α)
  | [] => []
  | (k', v') :: m => if k = k' then m else (k', v') :: erase k m

theorem erase_sublist (k : κ) (m : List (κ × α)) : (erase k m).Sublist m := by
  induction m with
  | nil => exact List.Sublist.refl _
  | cons q m ih =>
    rw [erase]
    split_ifs
    · exact List.sublist_cons_self _ _
    · exact ih.cons_cons _

theorem ordered_erase (hm : Ordered m) : Ordered (erase k m) := hm.sublist (erase_sublist k m)

theorem lookup_erase (hm : Ordered m) :
    (erase k m).lookup j = if j = k then none else m.lookup j := by
  induction m with
  | nil => simp [erase]
  | cons q m ih =>
    obtain ⟨hlt, hm⟩ := ordered_cons.mp hm
    rw [erase]
    split_ifs with hk hj
    · -- the key does not come again
      rw [hj, hk]
      exact lookup_eq_none_of_lt hlt
    · rw [lookup_cons_ite, if_neg (hk ▸ hj)]
    · rw [lookup_cons_ite, ih hm, if_neg (by rw [‹j = k›]; exact hk), if_pos ‹j = k›]
    · rw [lookup_cons_ite, lookup_cons_ite, ih hm, if_neg ‹¬ j = k›]

theorem length_erase (h : m.lookup k ≠ none) : (erase k m).length + 1 = m.length := by
  induction m with
  | nil => exact absurd rfl h
  | cons q m ih =>
    rw [lookup_cons_ite] at h
    rw [erase]
    split_ifs with hk
    · rfl
    · rw [if_neg hk] at h
      rw [List.length_cons, List.length_cons, ih h]

/-! ## Overlay -/

/-- Assign every pair of `top` on top of `base`. -/
def overlay (base top : List (κ × α)) : List (κ × α) :=
  top.foldl (fun m p => set p.1 p.2 m) base

theorem ordered_overlay (top : List (κ × α)) (hm : Ordered m) : Ordered (overlay m top) := by
  induction top generalizing m with
  | nil => exact hm
  | cons p top ih => exact ih (ordered_set hm)

/-- An overlaid key has the value of the overlay if the overlay assigns it, else
that of the base. -/
theorem lookup_overlay {top : List (κ × α)} (ho : Ordered top) :
    (overlay m top).lookup k = (top.lookup k).or (m.lookup k) := by
  induction top generalizing m with
  | nil => simp [overlay]
  | cons p top ih =>
    obtain ⟨hlt, ho⟩ := ordered_cons.mp ho
    -- the rest of the overlay assigns larger keys only, so it leaves this one
    change (overlay (set p.1 p.2 m) top).lookup k = _
    rw [ih ho, lookup_set, lookup_cons_ite]
    split_ifs with hk
    · rw [lookup_eq_none_of_lt (hk ▸ hlt), Option.none_or, Option.some_or]
    · rfl

/-! ## Rewriting values -/

/-- Rewrite every value by `f`, dropping the pairs `f` sends to `none`. -/
def mapMaybe (f : κ → α → Option β) (m : List (κ × α)) : List (κ × β) :=
  m.filterMap fun p => (f p.1 p.2).map (p.1, ·)

omit [LinearOrder κ] in
theorem mem_mapMaybe {f : κ → α → Option β} {w : β} :
    (k, w) ∈ mapMaybe f m ↔ ∃ v, (k, v) ∈ m ∧ f k v = some w := by
  simp only [mapMaybe, List.mem_filterMap, Option.map_eq_some_iff, Prod.mk.injEq, Prod.exists]
  constructor
  · rintro ⟨k', v, hmem, w', hf, rfl, rfl⟩
    exact ⟨v, hmem, hf⟩
  · rintro ⟨v, hmem, hf⟩
    exact ⟨k, v, hmem, w, hf, rfl, rfl⟩

theorem ordered_mapMaybe {f : κ → α → Option β} (hm : Ordered m) : Ordered (mapMaybe f m) := by
  refine List.Pairwise.filterMap _ ?_ hm
  intro p q hlt p' hp q' hq
  simp only [Option.map_eq_some_iff] at hp hq
  obtain ⟨_, -, rfl⟩ := hp
  obtain ⟨_, -, rfl⟩ := hq
  exact hlt

theorem lookup_mapMaybe {f : κ → α → Option β} (hm : Ordered m) :
    (mapMaybe f m).lookup k = (m.lookup k).bind (f k) := by
  ext w
  rw [lookup_eq_some_iff (ordered_mapMaybe hm), mem_mapMaybe, Option.bind_eq_some_iff]
  simp only [lookup_eq_some_iff hm]

theorem value_mapMaybe {f : κ → α → Option β} (hm : Ordered m) :
    value k (mapMaybe f m) = (value k m).bind (f k) := lookup_mapMaybe hm

end WinDep.KeyedList
