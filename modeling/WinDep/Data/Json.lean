/-
# JSON values

A value as a JSON text writes it keeps the members of an object in the order of
the text, repetitions included. A value as a program holds it in maps has one
member per key, and the last repetition of a key decides. The canonical
representative lists the members of every object in key order, and its numbers
are doubles, so two values are the same data exactly when their canonical forms
are equal.
-/

import WinDep.Data.Float64
import WinDep.Data.KeyedList
import Mathlib.Data.String.Basic

namespace WinDep

inductive Json
  | null
  | bool (value : Bool)
  | num (value : Number)
  | str (value : String)
  | arr (items : List Json)
  | obj (members : List (String × Json))

namespace Json

abbrev Members := List (String × Json)

/-- The members, if the value is an object. -/
def members? : Json → Option Members
  | obj ms => some ms
  | _ => none

/-- The string, if the value is one. -/
def str? : Json → Option String
  | str s => some s
  | _ => none

/-- The member of an object; nothing for other values. -/
def get? (k : String) (v : Json) : Option Json := v.members?.bind (List.lookup k)

@[simp] theorem get?_obj (k : String) (ms : Members) : (obj ms).get? k = ms.lookup k := rfl

@[simp] theorem str?_str (s : String) : (str s).str? = some s := rfl

theorem str?_eq_some {v : Json} {s : String} : v.str? = some s ↔ v = str s := by
  cases v <;> simp [str?]

/-! ## Canonical values -/

/-- Every object in the value lists its members in key order, and every number is a double. -/
inductive Canonical : Json → Prop
  | null : Canonical null
  | bool (b : Bool) : Canonical (bool b)
  | num {n : Number} (double : n.float? = some n) : Canonical (num n)
  | str (s : String) : Canonical (str s)
  | arr {items : List Json} (each : ∀ v ∈ items, Canonical v) : Canonical (arr items)
  | obj {ms : Members} (ordered : KeyedList.Ordered ms)
      (each : ∀ p ∈ ms, Canonical p.2) : Canonical (obj ms)

theorem canonical_num_iff {n : Number} : Canonical (num n) ↔ n.float? = some n :=
  ⟨fun h => by cases h with | num double => exact double, .num⟩

theorem canonical_arr_iff {items : List Json} :
    Canonical (arr items) ↔ ∀ v ∈ items, Canonical v :=
  ⟨fun h => by cases h with | arr each => exact each, .arr⟩

theorem canonical_obj_iff {ms : Members} :
    Canonical (obj ms) ↔ KeyedList.Ordered ms ∧ ∀ p ∈ ms, Canonical p.2 :=
  ⟨fun h => by cases h with | obj ordered each => exact ⟨ordered, each⟩, fun h => .obj h.1 h.2⟩

theorem Canonical.lookup {ms : Members} (h : Canonical (.obj ms)) {k : String} {v : Json}
    (hv : ms.lookup k = some v) : Canonical v :=
  (canonical_obj_iff.mp h).2 _ (KeyedList.mem_of_lookup_eq_some hv)

theorem Canonical.set {ms : Members} (h : Canonical (.obj ms)) (k : String) {v : Json}
    (hv : Canonical v) : Canonical (.obj (KeyedList.set k v ms)) := by
  obtain ⟨ordered, each⟩ := canonical_obj_iff.mp h
  refine .obj (KeyedList.ordered_set ordered) fun p hp => ?_
  rcases KeyedList.mem_set hp with rfl | hp
  · exact hv
  · exact each p hp

theorem Canonical.mapMaybe {ms : Members} (h : Canonical (.obj ms))
    {f : String → Json → Option Json}
    (hf : ∀ k v w, Canonical v → f k v = some w → Canonical w) :
    Canonical (.obj (KeyedList.mapMaybe f ms)) := by
  obtain ⟨ordered, each⟩ := canonical_obj_iff.mp h
  refine .obj (KeyedList.ordered_mapMaybe ordered) ?_
  rintro ⟨k, w⟩ hp
  obtain ⟨v, hv, hw⟩ := KeyedList.mem_mapMaybe.mp hp
  exact hf k v w (each _ hv) hw

/-! ## Normalization -/

mutual

/-- The value a program holds after decoding into maps. A number no double is close to leaves
nothing. -/
def normalize : Json → Json
  | num n => (n.float?).elim null num
  | arr items => arr (normalizeItems items)
  | obj ms => obj (normalizeMembers ms)
  | v => v

def normalizeItems : List Json → List Json
  | [] => []
  | v :: items => normalize v :: normalizeItems items

/-- A member repeated later in the text is overwritten by the repetition. -/
def normalizeMembers : List (String × Json) → List (String × Json)
  | [] => []
  | (k, v) :: ms =>
    if ((normalizeMembers ms).lookup k).isSome then normalizeMembers ms
    else KeyedList.set k (normalize v) (normalizeMembers ms)

end

mutual

theorem canonical_normalize : ∀ v : Json, Canonical (normalize v)
  | .null => .null
  | .bool b => .bool b
  | .num n => by
    rw [normalize]
    cases h : n.float? with
    | none => exact .null
    | some m => exact .num (Number.float?_float? h)
  | .str s => .str s
  | .arr items => .arr (canonical_normalizeItems items)
  | .obj ms => canonical_normalizeMembers ms

theorem canonical_normalizeItems : ∀ items : List Json, ∀ v ∈ normalizeItems items, Canonical v
  | [], v, hv => by simp [normalizeItems] at hv
  | w :: items, v, hv => by
    rw [normalizeItems] at hv
    rcases List.mem_cons.mp hv with rfl | hv
    · exact canonical_normalize w
    · exact canonical_normalizeItems items v hv

theorem canonical_normalizeMembers : ∀ ms : List (String × Json),
    Canonical (.obj (normalizeMembers ms))
  | [] => .obj KeyedList.ordered_nil (by simp [normalizeMembers])
  | (k, v) :: ms => by
    rw [normalizeMembers]
    split_ifs
    · exact canonical_normalizeMembers ms
    · exact (canonical_normalizeMembers ms).set k (canonical_normalize v)

end

mutual

/-- A canonical value is its own normal form. -/
theorem Canonical.normalize_eq : ∀ {v : Json}, Canonical v → normalize v = v
  | .null, _ | .bool _, _ | .str _, _ => by simp [normalize]
  | .num n, h => by rw [normalize, canonical_num_iff.mp h, Option.elim_some]
  | .arr items, h => by
    rw [normalize, normalizeItems_eq (canonical_arr_iff.mp h)]
  | .obj ms, h => by
    rw [normalize, normalizeMembers_eq (canonical_obj_iff.mp h).1 (canonical_obj_iff.mp h).2]

theorem normalizeItems_eq : ∀ {items : List Json}, (∀ v ∈ items, Canonical v) →
    normalizeItems items = items
  | [], _ => by simp [normalizeItems]
  | v :: items, h => by
    rw [normalizeItems, (h v (by simp)).normalize_eq,
      normalizeItems_eq fun w hw => h w (by simp [hw])]

theorem normalizeMembers_eq : ∀ {ms : List (String × Json)}, KeyedList.Ordered ms →
    (∀ p ∈ ms, Canonical p.2) → normalizeMembers ms = ms
  | [], _, _ => by simp [normalizeMembers]
  | (k, v) :: ms, ordered, each => by
    obtain ⟨hlt, ordered⟩ := KeyedList.ordered_cons.mp ordered
    rw [normalizeMembers, normalizeMembers_eq ordered fun p hp => each p (by simp [hp]),
      KeyedList.lookup_eq_none_of_lt hlt, (each (k, v) (by simp)).normalize_eq,
      if_neg (by simp), KeyedList.set_of_lt hlt]

end

/-! ## Numbers in range -/

mutual

/-- Every number of the value is close to a double. -/
def inRange : Json → Bool
  | num n => (n.float?).isSome
  | arr items => inRangeItems items
  | obj ms => inRangeMembers ms
  | _ => true

def inRangeItems : List Json → Bool
  | [] => true
  | v :: items => inRange v && inRangeItems items

def inRangeMembers : List (String × Json) → Bool
  | [] => true
  | (_, v) :: ms => inRange v && inRangeMembers ms

end

mutual

theorem Canonical.inRange : ∀ {v : Json}, Canonical v → v.inRange = true
  | .null, _ | .bool _, _ | .str _, _ => by simp [Json.inRange]
  | .num n, h => by rw [Json.inRange, canonical_num_iff.mp h, Option.isSome_some]
  | .arr items, h => by
    rw [Json.inRange, inRangeItems_of_canonical (canonical_arr_iff.mp h)]
  | .obj ms, h => by
    rw [Json.inRange, inRangeMembers_of_canonical (canonical_obj_iff.mp h).2]

theorem inRangeItems_of_canonical : ∀ {items : List Json}, (∀ v ∈ items, Canonical v) →
    inRangeItems items = true
  | [], _ => by simp [inRangeItems]
  | v :: items, h => by
    rw [inRangeItems, (h v (by simp)).inRange,
      inRangeItems_of_canonical fun w hw => h w (by simp [hw]), Bool.and_self]

theorem inRangeMembers_of_canonical : ∀ {ms : List (String × Json)},
    (∀ p ∈ ms, Canonical p.2) → inRangeMembers ms = true
  | [], _ => by simp [inRangeMembers]
  | (k, v) :: ms, h => by
    rw [inRangeMembers, (h (k, v) (by simp)).inRange,
      inRangeMembers_of_canonical fun p hp => h p (by simp [hp]), Bool.and_self]

end

/-! ## Nesting -/

mutual

/-- How many arrays and objects stand inside one another. -/
def nesting : Json → ℕ
  | arr items => nestingItems items + 1
  | obj ms => nestingMembers ms + 1
  | _ => 0

def nestingItems : List Json → ℕ
  | [] => 0
  | v :: items => max (nesting v) (nestingItems items)

def nestingMembers : List (String × Json) → ℕ
  | [] => 0
  | (_, v) :: ms => max (nesting v) (nestingMembers ms)

end

/-- A decoder refuses what stands deeper. -/
def maxNestingDepth : ℕ := 10000

theorem nestingMembers_le_iff {ms : Members} {d : ℕ} :
    nestingMembers ms ≤ d ↔ ∀ p ∈ ms, nesting p.2 ≤ d := by
  induction ms with
  | nil => simp [nestingMembers]
  | cons m ms ih => simp [nestingMembers, ih]

theorem nestingItems_le_iff {items : List Json} {d : ℕ} :
    nestingItems items ≤ d ↔ ∀ v ∈ items, nesting v ≤ d := by
  induction items with
  | nil => simp [nestingItems]
  | cons v items ih => simp [nestingItems, ih]

theorem inRangeMembers_iff {ms : Members} :
    inRangeMembers ms = true ↔ ∀ p ∈ ms, inRange p.2 = true := by
  induction ms with
  | nil => simp [inRangeMembers]
  | cons m ms ih => simp [inRangeMembers, ih]

theorem nesting_le_nestingMembers {ms : Members} {p : String × Json} (hp : p ∈ ms) :
    nesting p.2 ≤ nestingMembers ms := nestingMembers_le_iff.mp le_rfl p hp

mutual

/-- Decoding into maps drops members and never adds a level. -/
theorem nesting_normalize_le : ∀ v : Json, nesting (normalize v) ≤ nesting v
  | .null | .bool _ | .str _ => by simp [normalize]
  | .num n => by
    rw [normalize]
    cases n.float? <;> simp [nesting]
  | .arr items => by
    rw [normalize, nesting, nesting]
    exact Nat.succ_le_succ (nestingItems_normalize_le items)
  | .obj ms => by
    rw [normalize, nesting, nesting]
    exact Nat.succ_le_succ (nestingMembers_normalize_le ms)

theorem nestingItems_normalize_le : ∀ items : List Json,
    nestingItems (normalizeItems items) ≤ nestingItems items
  | [] => by simp [normalizeItems]
  | v :: items => by
    rw [normalizeItems, nestingItems, nestingItems]
    exact max_le_max (nesting_normalize_le v) (nestingItems_normalize_le items)

theorem nestingMembers_normalize_le : ∀ ms : List (String × Json),
    nestingMembers (normalizeMembers ms) ≤ nestingMembers ms
  | [] => by simp [normalizeMembers]
  | (k, v) :: ms => by
    have hrest := nestingMembers_normalize_le ms
    rw [normalizeMembers, nestingMembers]
    split_ifs
    · exact hrest.trans (le_max_right _ _)
    · refine nestingMembers_le_iff.mpr fun p hp => ?_
      rcases KeyedList.mem_set hp with rfl | hp
      · exact (nesting_normalize_le v).trans (le_max_left _ _)
      · exact ((nesting_le_nestingMembers hp).trans hrest).trans (le_max_right _ _)

end

/-- A decoder takes the value: it nests at most so deep, and its numbers are in range. -/
structure Within (d : ℕ) (v : Json) : Prop where
  nesting : v.nesting ≤ d
  inRange : v.inRange = true

theorem Within.mono {d d' : ℕ} {v : Json} (h : Within d v) (hd : d ≤ d') : Within d' v :=
  ⟨h.nesting.trans hd, h.inRange⟩

theorem within_str (d : ℕ) (s : String) : Within d (str s) := ⟨Nat.zero_le d, rfl⟩

theorem within_bool (d : ℕ) (b : Bool) : Within d (bool b) := ⟨Nat.zero_le d, rfl⟩

theorem within_obj {d : ℕ} {ms : Members} (h : ∀ p ∈ ms, Within d p.2) :
    Within (d + 1) (obj ms) :=
  ⟨Nat.succ_le_succ (nestingMembers_le_iff.mpr fun p hp => (h p hp).nesting),
    inRangeMembers_iff.mpr fun p hp => (h p hp).inRange⟩

end Json

end WinDep
