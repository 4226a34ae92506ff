/-
# Decoded objects

An object as a program holds it: its members are canonical, so it is determined
by its lookups. Objects are built from other objects by assignment, by overlaying
one on another and by rewriting members, and each of these keeps them canonical.
-/

import WinDep.Data.Json

namespace WinDep.Json

/-- The members of a canonical object. -/
structure Object where
  members : Members
  canonical : Canonical (.obj members)

namespace Object

variable {o o' : Object} {k j : String} {v : Json}

def lookup (o : Object) (k : String) : Option Json := o.members.lookup k

def toJson (o : Object) : Json := .obj o.members

def empty : Object := ⟨[], .obj KeyedList.ordered_nil (by simp)⟩

/-- The object an object of a text decodes to. -/
def ofMembers (ms : Members) : Object := ⟨normalizeMembers ms, canonical_normalizeMembers ms⟩

theorem ordered (o : Object) : KeyedList.Ordered o.members := (canonical_obj_iff.mp o.canonical).1

theorem canonical_lookup (h : o.lookup k = some v) : Canonical v := o.canonical.lookup h

@[simp] theorem lookup_empty : empty.lookup k = none := rfl

@[ext] theorem ext (h : ∀ k, o.lookup k = o'.lookup k) : o = o' := by
  have hmembers := KeyedList.ext_lookup o.ordered o'.ordered h
  cases o
  cases o'
  simpa using hmembers

theorem toJson_injective : Function.Injective toJson := by
  rintro ⟨ms, _⟩ ⟨ms', _⟩ h
  simpa [toJson] using h

@[simp] theorem ofMembers_members (o : Object) : ofMembers o.members = o := by
  obtain ⟨ms, hms⟩ := o
  obtain ⟨ordered, each⟩ := canonical_obj_iff.mp hms
  simp only [ofMembers, normalizeMembers_eq ordered each]

theorem members_eq_nil_iff : o.members = [] ↔ ∀ k, o.lookup k = none := by
  constructor
  · intro h k
    rw [lookup, h, List.lookup_nil]
  · intro h
    have hempty : o = empty := ext h
    rw [hempty]
    rfl

/-! ## Members that are objects -/

/-- The member of a key, if it is an object. -/
def object? (o : Object) (k : String) : Option Object :=
  match h : o.lookup k with
  | some (.obj ms) => some ⟨ms, canonical_lookup h⟩
  | _ => none

theorem object?_eq_some {b : Object} : o.object? k = some b ↔ o.lookup k = some b.toJson := by
  unfold object?
  split
  · rename_i ms h
    obtain ⟨ms', _⟩ := b
    simp [h, toJson]
  · rename_i hne
    simp only [reduceCtorEq, false_iff]
    exact hne b.members

theorem object?_eq_none : o.object? k = none ↔ ∀ b : Object, o.lookup k ≠ some b.toJson := by
  rw [Option.eq_none_iff_forall_ne_some]
  simp only [ne_eq, object?_eq_some]

/-! ## Operations -/

def set (o : Object) (k : String) (v : Json) (hv : Canonical v) : Object :=
  ⟨KeyedList.set k v o.members, o.canonical.set k hv⟩

/-- Assign an object. -/
def setObject (o : Object) (k : String) (b : Object) : Object := o.set k b.toJson b.canonical

@[simp] theorem lookup_set {hv : Canonical v} :
    (o.set k v hv).lookup j = if j = k then some v else o.lookup j := KeyedList.lookup_set

@[simp] theorem lookup_setObject {b : Object} :
    (o.setObject k b).lookup j = if j = k then some b.toJson else o.lookup j := lookup_set

@[simp] theorem object?_setObject_self {b : Object} : (o.setObject k b).object? k = some b := by
  rw [object?_eq_some, lookup_setObject, if_pos rfl]

/-- Assign every member of `top` on top of `base`. -/
def overlay (base top : Object) : Object :=
  ⟨KeyedList.overlay base.members top.members, by
    refine .obj (KeyedList.ordered_overlay _ base.ordered) fun p hp => ?_
    have hlookup := KeyedList.lookup_of_mem (KeyedList.ordered_overlay _ base.ordered) hp
    rw [KeyedList.lookup_overlay top.ordered, Option.or_eq_some_iff] at hlookup
    rcases hlookup with h | ⟨-, h⟩
    · exact top.canonical.lookup h
    · exact base.canonical.lookup h⟩

@[simp] theorem lookup_overlay {base top : Object} :
    (base.overlay top).lookup k = (top.lookup k).or (base.lookup k) :=
  KeyedList.lookup_overlay top.ordered

/-- Rewrite every member by `f`, dropping those `f` sends to `none`. -/
def mapMaybe (f : String → Json → Option Json)
    (hf : ∀ k v w, Canonical v → f k v = some w → Canonical w) (o : Object) : Object :=
  ⟨KeyedList.mapMaybe f o.members, o.canonical.mapMaybe hf⟩

@[simp] theorem lookup_mapMaybe {f : String → Json → Option Json}
    {hf : ∀ k v w, Canonical v → f k v = some w → Canonical w} :
    (o.mapMaybe f hf).lookup k = (o.lookup k).bind (f k) :=
  KeyedList.lookup_mapMaybe o.ordered

/-! ## Nesting -/

theorem nesting_lt_of_lookup (h : o.lookup k = some v) : v.nesting < o.toJson.nesting :=
  Nat.lt_succ_of_le (nesting_le_nestingMembers (KeyedList.mem_of_lookup_eq_some h))

theorem nesting_setObject_le {b : Object} :
    (o.setObject k b).toJson.nesting ≤ max o.toJson.nesting (b.toJson.nesting + 1) := by
  rw [toJson, toJson, nesting, nesting, Nat.add_max_add_right]
  refine Nat.succ_le_succ (nestingMembers_le_iff.mpr fun p hp => ?_)
  rcases KeyedList.mem_set hp with rfl | hp
  · exact le_max_right _ _
  · exact (nesting_le_nestingMembers hp).trans (le_max_left _ _)

theorem nesting_mapMaybe_le {f : String → Json → Option Json}
    {hf : ∀ k v w, Canonical v → f k v = some w → Canonical w}
    (hle : ∀ k v w, f k v = some w → w.nesting ≤ v.nesting) :
    (o.mapMaybe f hf).toJson.nesting ≤ o.toJson.nesting := by
  refine Nat.succ_le_succ (nestingMembers_le_iff.mpr ?_)
  rintro ⟨k, w⟩ hp
  obtain ⟨v, hv, hw⟩ := KeyedList.mem_mapMaybe.mp hp
  exact (hle k v w hw).trans (nesting_le_nestingMembers hv)

/-! ## Objects with optional members -/

/-- The members of the entries that have a value, in the order they are written. -/
def sparse (es : List (String × Option Json)) : Members :=
  es.filterMap fun e => e.2.map (e.1, ·)

theorem within_sparse {d : ℕ} {es : List (String × Option Json)}
    (h : ∀ e ∈ es, ∀ v, e.2 = some v → Within d v) : Within (d + 1) (.obj (sparse es)) := by
  refine within_obj fun p hp => ?_
  obtain ⟨e, he, hp⟩ := List.mem_filterMap.mp hp
  obtain ⟨v, hv, rfl⟩ := Option.map_eq_some_iff.mp hp
  exact h e he v hv

/-- An object decoded from entries with distinct names has exactly their values. -/
theorem lookup_ofMembers_sparse {es : List (String × Option Json)}
    (h : (es.map Prod.fst).Nodup) :
    (ofMembers (sparse es)).lookup k = (es.lookup k).join.map normalize := by
  change (normalizeMembers (sparse es)).lookup k = _
  induction es generalizing k with
  | nil => rfl
  | cons e es ih =>
    obtain ⟨j, v⟩ := e
    obtain ⟨hj, hes⟩ := List.nodup_cons.mp h
    -- names are distinct, so no later entry overwrites this one
    have hnone : (normalizeMembers (sparse es)).lookup j = none := by
      rw [ih hes, Option.map_eq_none_iff]
      have hlookup : es.lookup j = none := by
        rw [List.lookup_eq_none_iff]
        intro e he
        have hne : j ≠ e.1 := fun heq => hj (List.mem_map.mpr ⟨e, he, heq.symm⟩)
        simpa using hne
      rw [hlookup]
      rfl
    rw [KeyedList.lookup_cons_ite]
    cases v with
    | none =>
      change (normalizeMembers (sparse es)).lookup k = _
      split_ifs with hk
      · rw [hk, hnone]
        rfl
      · exact ih hes
    | some w =>
      change (normalizeMembers ((j, w) :: sparse es)).lookup k = _
      rw [normalizeMembers, hnone, if_neg (by simp), KeyedList.lookup_set]
      split_ifs with hk
      · rfl
      · exact ih hes

end Object

end WinDep.Json
