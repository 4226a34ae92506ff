/-
# Merging maps that are shared

A decoded config is a map, and its unattend block a map it refers to. The merge
is a map of its own, but without members to merge its block is the default's own
map, and opening writes in place while it ranges over what it writes. Here both
functions run on a heap of maps, with every loop in an order of its own.

The result holds what merging and opening give as functions of values, whatever
the orders are, and the maps that were merged are left as they were.
-/

import WinDep.Config.Resolve
import WinDep.Data.MapRange

namespace WinDep.Api

open Json Envelope

/-- What a config map holds for a key: a map, by reference, or a value that is none. Maps further
down are never written, so they are values. -/
inductive Slot
  | plain (v : Json) (hv : v.members? = none)
  | map (ref : ℕ)

/-- The config maps and the maps they refer to; references from the counters on are unused. -/
structure Heap where
  configs : ℕ → KeyedMap String Slot
  blocks : ℕ → KeyedMap String Json
  nextConfig : ℕ
  nextBlock : ℕ

namespace Heap

/-- The map of a config. Reading the nil map finds nothing. -/
def config (h : Heap) (cfg : Option ℕ) : KeyedMap String Slot := cfg.elim .empty h.configs

/-- `cfg["unattend"].(map[string]any)` -/
def unattend (h : Heap) (cfg : Option ℕ) : Option ℕ :=
  match (h.config cfg).lookup "unattend" with
  | some (.map un) => some un
  | _ => none

def makeConfig (h : Heap) : Heap × ℕ :=
  ({ h with
    configs := Function.update h.configs h.nextConfig .empty
    nextConfig := h.nextConfig + 1 }, h.nextConfig)

def makeBlock (h : Heap) : Heap × ℕ :=
  ({ h with
    blocks := Function.update h.blocks h.nextBlock .empty
    nextBlock := h.nextBlock + 1 }, h.nextBlock)

def assignConfig (h : Heap) (cfg : ℕ) (l : List (String × Slot)) : Heap :=
  { h with configs := Function.update h.configs cfg ((h.configs cfg).assign l) }

def assignBlock (h : Heap) (un : ℕ) (l : List (String × Json)) : Heap :=
  { h with blocks := Function.update h.blocks un ((h.blocks un).assign l) }

/-- The value a slot stands for. -/
def value (h : Heap) : Slot → Json
  | .plain v _ => v
  | .map un => .obj (h.blocks un).pairs

/-- The value of a key of a config. -/
def lookup (h : Heap) (cfg : Option ℕ) (k : String) : Option Json :=
  ((h.config cfg).lookup k).map h.value

/-- Copy the block of a config, if it has one, to another block. -/
def copyBlock (order : RangeOrder String) (h : Heap) (un : ℕ) (src : Option ℕ) : Heap :=
  match h.unattend src with
  | some d => h.assignBlock un (order.visit (h.blocks d).pairs)
  | none => h

end Heap

/-! ## The two functions -/

/-- Overlay a machine's config on the default; the result is a new map. -/
def Heap.mergeConfig (order : ℕ → RangeOrder String) (h : Heap) (base per : Option ℕ) : Heap × ℕ :=
  let (h, out) := h.makeConfig
  let h := h.assignConfig out ((order 0).visit (h.config base).pairs)
  let h := h.assignConfig out
    (((order 1).visit (h.config per).pairs).filter fun p => p.1 ≠ "unattend")
  let (h, un) := h.makeBlock
  let h := h.copyBlock (order 2) un base
  let h := h.copyBlock (order 3) un per
  -- an empty block is not assigned, and the slot of the default stays
  if 0 < (h.blocks un).pairs.length then (h.assignConfig out [("unattend", .map un)], out)
  else (h, out)

section

variable (P : Primitives) (masterKey : Option Key)

/-- The loop of `decryptUnattend` over the pairs still to visit. -/
def Heap.decryptMembers (un : ℕ) : List (String × Json) → Heap → Heap × Option ResolveError
  | [], h => (h, none)
  | (k, v) :: ms, h =>
    match v with
    | .str s =>
      if isEncrypted (toBytes s) then
        match decryptSecret P masterKey (toBytes s) with
        | .error e => (h, some (.decrypt k e))
        | .ok plain => decryptMembers un ms (h.assignBlock un [(k, .str (ofBytes plain))])
      else decryptMembers un ms h
    | _ => decryptMembers un ms h

/-- Open the block in place. -/
def Heap.decryptUnattend (order : RangeOrder String) (h : Heap) (cfg : Option ℕ) :
    Heap × Option ResolveError :=
  match h.unattend cfg with
  | none => (h, none)
  | some un => h.decryptMembers P masterKey un (order.visit (h.blocks un).pairs)

end

/-! ## Decoding into maps -/

namespace Heap

/-- The slot of a decoded value; every object gets a map of its own. -/
def loadValue (h : Heap) : Json → Heap × Slot
  | .obj ms =>
    let (h, un) := h.makeBlock
    (h.assignBlock un ms, .map un)
  | .null => (h, .plain .null rfl)
  | .bool b => (h, .plain (.bool b) rfl)
  | .num n => (h, .plain (.num n) rfl)
  | .str s => (h, .plain (.str s) rfl)
  | .arr items => (h, .plain (.arr items) rfl)

def loadMembers (h : Heap) : Members → Heap × List (String × Slot)
  | [] => (h, [])
  | (k, v) :: ms =>
    let (h, s) := h.loadValue v
    let (h, slots) := h.loadMembers ms
    (h, (k, s) :: slots)

/-- The maps that `json.Unmarshal` makes for an object. -/
def load (h : Heap) (o : Object) : Heap × ℕ :=
  let (h, slots) := h.loadMembers o.members
  let (h, cfg) := h.makeConfig
  (h.assignConfig cfg slots, cfg)

/-! ## Heaps that grow -/

variable {h h' h'' : Heap} {a b un : ℕ} {cfg base per : Option ℕ} {c baseCfg perCfg : Config}
  {o : Object} {k : String} {l : List (String × Slot)} {s : Slot}

/-- Nothing that is in use changes. -/
structure Extends (h h' : Heap) : Prop where
  configs : ∀ a, a < h.nextConfig → h'.configs a = h.configs a
  blocks : ∀ b, b < h.nextBlock → h'.blocks b = h.blocks b
  nextConfig : h.nextConfig ≤ h'.nextConfig
  nextBlock : h.nextBlock ≤ h'.nextBlock

theorem Extends.refl (h : Heap) : Extends h h := ⟨fun _ _ => rfl, fun _ _ => rfl, le_rfl, le_rfl⟩

theorem Extends.trans (h₁ : Extends h h') (h₂ : Extends h' h'') : Extends h h'' where
  configs a ha := (h₂.configs a (ha.trans_le h₁.nextConfig)).trans (h₁.configs a ha)
  blocks b hb := (h₂.blocks b (hb.trans_le h₁.nextBlock)).trans (h₁.blocks b hb)
  nextConfig := h₁.nextConfig.trans h₂.nextConfig
  nextBlock := h₁.nextBlock.trans h₂.nextBlock

/-- The config is in use, with everything it refers to. -/
structure Live (h : Heap) (cfg : Option ℕ) : Prop where
  config : ∀ a, cfg = some a → a < h.nextConfig
  slots : ∀ k b, (h.config cfg).lookup k = some (.map b) → b < h.nextBlock

/-- The config has the members of a value. -/
def Holds (h : Heap) (cfg : Option ℕ) (c : Config) : Prop :=
  ∀ k, h.lookup cfg k = c.object.lookup k

theorem Live.config_eq (hlive : Live h cfg) (hext : Extends h h') :
    h'.config cfg = h.config cfg := by
  cases cfg with
  | none => rfl
  | some a => exact hext.configs a (hlive.config a rfl)

theorem Live.extends (hlive : Live h cfg) (hext : Extends h h') : Live h' cfg where
  config a ha := (hlive.config a ha).trans_le hext.nextConfig
  slots k b hb := (hlive.slots k b (hlive.config_eq hext ▸ hb)).trans_le hext.nextBlock

theorem value_congr (hs : ∀ b, s = .map b → h'.blocks b = h.blocks b) : h'.value s = h.value s := by
  cases s with
  | plain v => rfl
  | map b => rw [value, value, hs b rfl]

/-- A value depends on the config map and on the blocks it refers to. -/
theorem lookup_congr (hconfig : h'.config cfg = h.config cfg)
    (hblocks : ∀ b, (h.config cfg).lookup k = some (.map b) → h'.blocks b = h.blocks b) :
    h'.lookup cfg k = h.lookup cfg k := by
  rw [lookup, lookup, hconfig]
  cases hslot : (h.config cfg).lookup k with
  | none => rfl
  | some s =>
    rw [Option.map_some, Option.map_some, value_congr]
    rintro b rfl
    exact hblocks b hslot

/-- A config in use keeps its value. -/
theorem Live.lookup_eq (hlive : Live h cfg) (hext : Extends h h') :
    h'.lookup cfg k = h.lookup cfg k :=
  lookup_congr (hlive.config_eq hext) fun b hb => hext.blocks b (hlive.slots k b hb)

theorem Holds.extends (hholds : Holds h cfg c) (hlive : Live h cfg) (hext : Extends h h') :
    Holds h' cfg c := fun k => (hlive.lookup_eq hext).trans (hholds k)

/-- The block of a config, empty if there is none. -/
def block (h : Heap) (cfg : Option ℕ) : KeyedMap String Json :=
  (h.unattend cfg).elim .empty h.blocks

theorem unattend_eq_some : h.unattend cfg = some b ↔
    (h.config cfg).lookup "unattend" = some (.map b) := by
  unfold unattend
  split
  · next un hun => simp [hun]
  · next hne => simpa using fun hb => hne b hb

/-- The block in use is the block of the value. -/
theorem Holds.unattend (hholds : Holds h cfg c) :
    (h.unattend cfg).map (fun un => (h.blocks un).pairs) = c.unattend.map Object.members := by
  have hvalue := hholds "unattend"
  rw [lookup] at hvalue
  cases hun : h.unattend cfg with
  | some un =>
    rw [unattend_eq_some.mp hun, Option.map_some, value] at hvalue
    cases hc : c.unattend with
    | none =>
      -- the value has the block's members there, so it has a block
      rw [Config.unattend, Object.object?_eq_none] at hc
      have hcanonical := Object.canonical_lookup hvalue.symm
      exact absurd hvalue.symm (hc ⟨_, hcanonical⟩)
    | some o =>
      rw [Config.unattend, Object.object?_eq_some, ← hvalue, Option.some.injEq] at hc
      rw [Option.map_some, Option.map_some, Option.some.injEq]
      exact Json.obj.inj hc
  | none =>
    rw [Option.map_none, eq_comm, Option.map_eq_none_iff, Config.unattend, Object.object?_eq_none]
    intro o ho
    rw [← hvalue, Option.map_eq_some_iff] at ho
    obtain ⟨s, hs, hobj⟩ := ho
    cases s with
    | plain v hv =>
      -- a plain slot is no object
      rw [value] at hobj
      rw [hobj] at hv
      cases hv
    | map b =>
      rw [unattend_eq_some.mpr hs] at hun
      cases hun

theorem Holds.lookup_block (hholds : Holds h cfg c) :
    (h.block cfg).lookup k = (c.unattend.getD Object.empty).lookup k := by
  have hun := hholds.unattend
  rw [block]
  cases hblock : h.unattend cfg with
  | none =>
    rw [hblock, Option.map_none, eq_comm, Option.map_eq_none_iff] at hun
    rw [hun]
    rfl
  | some un =>
    rw [hblock, Option.map_some, eq_comm, Option.map_eq_some_iff] at hun
    obtain ⟨o, ho, hmembers⟩ := hun
    rw [ho, Option.elim_some, Option.getD_some, KeyedMap.lookup, Object.lookup, hmembers]

/-! ## Merging -/

section

variable (order : ℕ → RangeOrder String)

/-- Copying a block writes one block only. -/
theorem copyBlock_spec (o : RangeOrder String) : ∃ m,
    h.copyBlock o un cfg = { h with blocks := Function.update h.blocks un m } ∧
      ∀ k, m.lookup k = ((h.block cfg).lookup k).or ((h.blocks un).lookup k) := by
  unfold copyBlock block
  cases h.unattend cfg with
  | none => exact ⟨h.blocks un, by rw [Function.update_eq_self], fun k => rfl⟩
  | some d => exact ⟨_, rfl, fun k => o.lookup_assign_visit⟩

/-- The heap with a new config map and a new block. -/
def grown (h : Heap) (out : KeyedMap String Slot) (un : KeyedMap String Json) : Heap where
  configs := Function.update h.configs h.nextConfig out
  blocks := Function.update h.blocks h.nextBlock un
  nextConfig := h.nextConfig + 1
  nextBlock := h.nextBlock + 1

theorem extends_grown (h : Heap) (out : KeyedMap String Slot) (un : KeyedMap String Json) :
    Extends h (h.grown out un) where
  configs _ ha := Function.update_of_ne ha.ne _ _
  blocks _ hb := Function.update_of_ne hb.ne _ _
  nextConfig := Nat.le_succ _
  nextBlock := Nat.le_succ _

@[simp] theorem config_grown {out : KeyedMap String Slot} {un : KeyedMap String Json} :
    (h.grown out un).config (some h.nextConfig) = out := Function.update_self _ _ _

/-- The merged maps, before the merged block is assigned: outside the block the machine's config
wins, and the new block is the merged one. -/
structure Merged (h : Heap) (base per : Option ℕ) (baseCfg perCfg : Config)
    (out : KeyedMap String Slot) (un : KeyedMap String Json) : Prop where
  out : ∀ k, out.lookup k = (((h.config per).lookup k).filter fun _ => k ≠ "unattend").or
    ((h.config base).lookup k)
  un : ∀ k, un.lookup k = (mergedUnattend baseCfg perCfg).lookup k

theorem mergeConfig_spec (hbase : Live h base) (hper : Live h per) (hbaseCfg : Holds h base baseCfg)
    (hperCfg : Holds h per perCfg) : ∃ out un, Merged h base per baseCfg perCfg out un ∧
      h.mergeConfig order base per =
        if 0 < un.pairs.length then
          (h.grown (out.assign [("unattend", .map h.nextBlock)]) un, h.nextConfig)
        else (h.grown out un, h.nextConfig) := by
  let made (out : KeyedMap String Slot) : Heap :=
    { h with
      configs := Function.update h.configs h.nextConfig out
      nextConfig := h.nextConfig + 1 }
  -- the loops over the two configs read maps that the new map does not touch
  have hmade (out : KeyedMap String Slot) : Extends h (made out) :=
    ⟨fun _ ha => Function.update_of_ne ha.ne _ _, fun _ _ => rfl, Nat.le_succ _, le_rfl⟩
  have hassign (out : KeyedMap String Slot) (l : List (String × Slot)) :
      (made out).assignConfig h.nextConfig l = made (out.assign l) := by
    simp [made, assignConfig]
  have hstart : h.makeConfig = (made .empty, h.nextConfig) := rfl
  have hblock (out : KeyedMap String Slot) :
      (made out).makeBlock = (h.grown out .empty, h.nextBlock) := rfl
  unfold mergeConfig
  simp only [hstart, hassign, hbase.config_eq (hmade _), hper.config_eq (hmade _), hblock]
  set out := (KeyedMap.empty.assign ((order 0).visit (h.config base).pairs)).assign
    (((order 1).visit (h.config per).pairs).filter fun p => p.1 ≠ "unattend") with hout
  -- so do the loops over the two blocks
  have hcopy (cfg : Option ℕ) (c : Config) (hlive : Live h cfg) (hc : Holds h cfg c)
      (o : RangeOrder String) (un : KeyedMap String Json) : ∃ un',
        (h.grown out un).copyBlock o h.nextBlock cfg = h.grown out un' ∧
          ∀ k, un'.lookup k = ((c.unattend.getD Object.empty).lookup k).or (un.lookup k) := by
    obtain ⟨un', hun', hlookup⟩ := @copyBlock_spec (h.grown out un) h.nextBlock cfg o
    refine ⟨un', by rw [hun']; simp [grown], fun k => ?_⟩
    rw [hlookup k, (hc.extends hlive (extends_grown h out un)).lookup_block]
    simp [grown]
  obtain ⟨un₁, hun₁, hlookup₁⟩ := hcopy base baseCfg hbase hbaseCfg (order 2) .empty
  obtain ⟨un₂, hun₂, hlookup₂⟩ := hcopy per perCfg hper hperCfg (order 3) un₁
  refine ⟨out, un₂, ⟨fun k => ?_, fun k => ?_⟩, ?_⟩
  · rw [hout, (order 1).lookup_assign_filter fun k => k ≠ "unattend",
      (order 0).lookup_assign_visit]
    simp
  · rw [hlookup₂, hlookup₁, mergedUnattend, Object.lookup_overlay]
    simp
  · have hblocks : (h.grown out un₂).blocks h.nextBlock = un₂ := Function.update_self _ _ _
    have hlast (l : List (String × Slot)) :
        (h.grown out un₂).assignConfig h.nextConfig l = h.grown (out.assign l) un₂ := by
      simp [grown, assignConfig]
    rw [hun₁, hun₂, hblocks, hlast]

theorem Holds.map_value (hc : Holds h cfg c) (hlive : Live h cfg) (hext : Extends h h') :
    ((h.config cfg).lookup k).map h'.value = c.object.lookup k := by
  rw [← hc.extends hlive hext k, lookup, hlive.config_eq hext]

variable {out : KeyedMap String Slot} {un : KeyedMap String Json}

theorem Merged.un_pairs (hm : Merged h base per baseCfg perCfg out un) :
    un.pairs = (mergedUnattend baseCfg perCfg).members :=
  KeyedList.ext_lookup un.ordered (mergedUnattend baseCfg perCfg).ordered hm.un

/-- The new map's own slots: those of the machine's config outside the block, and the default's. -/
theorem Merged.map_value (hm : Merged h base per baseCfg perCfg out un) (hbase : Live h base)
    (hper : Live h per) (hbaseCfg : Holds h base baseCfg) (hperCfg : Holds h per perCfg)
    (hext : Extends h h') : (out.lookup k).map h'.value =
      if k = "unattend" then baseCfg.object.lookup k
      else (perCfg.object.lookup k).or (baseCfg.object.lookup k) := by
  rw [hm.out, Option.map_or, hbaseCfg.map_value hbase hext, ← hperCfg.map_value hper hext]
  split_ifs with hk
  · cases (h.config per).lookup k <;> simp [hk]
  · cases (h.config per).lookup k <;> simp [hk]

theorem Merged.lt_nextBlock (hm : Merged h base per baseCfg perCfg out un) (hbase : Live h base)
    (hper : Live h per) {b : ℕ} (hb : out.lookup k = some (.map b)) : b < h.nextBlock := by
  rw [hm.out, Option.or_eq_some_iff] at hb
  rcases hb with hb | ⟨-, hb⟩
  · exact hper.slots k b (Option.filter_eq_some_iff.mp hb).1
  · exact hbase.slots k b hb

/-- A config whose block may be opened in place: it is empty, or no other slot refers to it. -/
def Opens (h : Heap) (cfg : Option ℕ) : Prop :=
  ∀ un, h.unattend cfg = some un → (h.blocks un).pairs = [] ∨
    ∀ k, (h.config cfg).lookup k = some (.map un) → k = "unattend"

/-- **Merging on the heap.** The result is a new map with the merged values; nothing in use
changes. Its block is new, or the default's own while that is empty. -/
theorem holds_mergeConfig (hbase : Live h base) (hper : Live h per)
    (hbaseCfg : Holds h base baseCfg) (hperCfg : Holds h per perCfg) :
    let r := h.mergeConfig order base per
    Extends h r.1 ∧ Holds r.1 (some r.2) (some (Api.mergeConfig baseCfg perCfg)) ∧
      Opens r.1 (some r.2) ∧
      ∀ un, r.1.unattend (some r.2) = some un → (r.1.blocks un).pairs = [] ∨ h.nextBlock ≤ un := by
  obtain ⟨out, un, hm, hr⟩ := mergeConfig_spec order hbase hper hbaseCfg hperCfg
  have hobject : Config.object (some (Api.mergeConfig baseCfg perCfg)) =
      Api.mergeConfig baseCfg perCfg := rfl
  have hvalue (k : String) {h' : Heap} (hext : Extends h h') :=
    @Merged.map_value h h' base per baseCfg perCfg k out un hm hbase hper hbaseCfg hperCfg hext
  dsimp only
  rw [hr, hm.un_pairs]
  by_cases hnil : (mergedUnattend baseCfg perCfg).members = []
  · -- the block, if there is one, is the default's own, and empty
    rw [if_neg (by simp [hnil])]
    have hempty : ∀ b, (h.grown out un).unattend (some h.nextConfig) = some b →
        ((h.grown out un).blocks b).pairs = [] := by
      intro b hb
      rw [unattend_eq_some, config_grown] at hb
      rw [(extends_grown h out un).blocks b (hm.lt_nextBlock hbase hper hb)]
      rw [hm.out, Option.or_eq_some_iff] at hb
      rcases hb with hb | ⟨-, hb⟩
      · simp at hb
      · have hblock := hbaseCfg.unattend
        rw [unattend_eq_some.mpr hb, Option.map_some, eq_comm, Option.map_eq_some_iff] at hblock
        obtain ⟨o, ho, hmembers⟩ := hblock
        rw [← hmembers, mergedUnattend_members_eq_nil hnil ho]
    refine ⟨extends_grown h out un, fun k => ?_, fun b hb => .inl (hempty b hb),
      fun b hb => .inl (hempty b hb)⟩
    rw [lookup, config_grown, hvalue k (extends_grown h out un), hobject]
    split_ifs with hk
    · rw [hk, lookup_mergeConfig_unattend, if_pos hnil]
    · rw [lookup_mergeConfig_of_ne hk]
  · rw [if_pos (List.length_pos_iff.mpr hnil)]
    set out' := out.assign [("unattend", .map h.nextBlock)] with hout'
    have hlookup : ∀ k, out'.lookup k =
        if k = "unattend" then some (.map h.nextBlock) else out.lookup k := fun k => by
      rw [hout', KeyedMap.assign, List.foldl_cons, List.foldl_nil, KeyedMap.lookup_set]
    have hself : (h.grown out' un).unattend (some h.nextConfig) = some h.nextBlock := by
      rw [unattend_eq_some, config_grown, hlookup, if_pos rfl]
    refine ⟨extends_grown h out' un, fun k => ?_, fun b hb => .inr fun k hslot => ?_,
      fun b hb => .inr ?_⟩
    · rw [lookup, config_grown, hlookup, hobject]
      split_ifs with hk
      · rw [hk, lookup_mergeConfig_unattend, if_neg hnil, Option.map_some, value,
          Object.toJson, ← hm.un_pairs]
        simp [grown]
      · rw [hvalue k (extends_grown h out' un), if_neg hk, lookup_mergeConfig_of_ne hk]
    · rw [hself, Option.some.injEq] at hb
      subst hb
      rw [config_grown, hlookup] at hslot
      by_contra hk
      rw [if_neg hk] at hslot
      exact absurd (hm.lt_nextBlock hbase hper hslot) (lt_irrefl _)
    · rw [hself, Option.some.injEq] at hb
      exact hb.le

end

/-! ## Opening -/

section

variable {P : Primitives} {masterKey : Option Key}

/-- The heap with another block in place of one. -/
def setBlock (h : Heap) (un : ℕ) (m : KeyedMap String Json) : Heap :=
  { h with blocks := Function.update h.blocks un m }

/-- One turn of the loop stops at a member that does not open, and assigns the others opened. -/
theorem decryptMembers_cons {un : ℕ} {v : Json} {ms : Members}
    (hv : (h.blocks un).lookup k = some v) :
    (∃ e, decryptMember P masterKey v = .error e ∧
      h.decryptMembers P masterKey un ((k, v) :: ms) = (h, some (.decrypt k e))) ∨
    ∃ w m, decryptMember P masterKey v = .ok w ∧
      h.decryptMembers P masterKey un ((k, v) :: ms) =
        (h.setBlock un m).decryptMembers P masterKey un ms ∧
      ∀ j, m.lookup j = if j = k then some w else (h.blocks un).lookup j := by
  have hsame (hok : decryptMember P masterKey v = .ok v)
      (hskip : h.decryptMembers P masterKey un ((k, v) :: ms) =
        h.decryptMembers P masterKey un ms) :
      ∃ w m, decryptMember P masterKey v = .ok w ∧
        h.decryptMembers P masterKey un ((k, v) :: ms) =
          (h.setBlock un m).decryptMembers P masterKey un ms ∧
        ∀ j, m.lookup j = if j = k then some w else (h.blocks un).lookup j := by
    refine ⟨v, h.blocks un, hok, by rw [hskip, setBlock, Function.update_eq_self], fun j => ?_⟩
    split_ifs with hj
    · rw [hj, hv]
    · rfl
  cases v with
  | str s =>
    by_cases hsealed : isEncrypted (toBytes s) = true
    · rw [decryptMember, if_pos hsealed, decryptMembers, if_pos hsealed]
      cases decryptSecret P masterKey (toBytes s) with
      | error e => exact .inl ⟨e, rfl, rfl⟩
      | ok plain =>
        refine .inr ⟨_, (h.blocks un).set k (.str (ofBytes plain)), rfl, rfl, fun j => ?_⟩
        rw [KeyedMap.lookup_set]
    · exact .inr (hsame (by rw [decryptMember, if_neg hsealed])
        (by rw [decryptMembers, if_neg hsealed]))
  | null | bool | num | arr | obj => exact .inr (hsame rfl rfl)

theorem decryptMembers_spec {un : ℕ} {ms : Members} (hnodup : (ms.map Prod.fst).Nodup)
    (hms : ∀ p ∈ ms, (h.blocks un).lookup p.1 = some p.2) :
    ∃ m r, h.decryptMembers P masterKey un ms = (h.setBlock un m, r) ∧
      (r = none ↔ ∀ p ∈ ms, ∃ w, decryptMember P masterKey p.2 = .ok w) ∧
      (r = none → ∀ k, m.lookup k =
        (ms.lookup k).elim ((h.blocks un).lookup k)
          fun v => (decryptMember P masterKey v).toOption) := by
  -- the turns before this one have assigned other keys
  induction ms generalizing h with
  | nil =>
    refine ⟨h.blocks un, none, ?_, by simp, fun _ k => rfl⟩
    rw [decryptMembers, setBlock, Function.update_eq_self]
  | cons p ms ih =>
    obtain ⟨k, v⟩ := p
    obtain ⟨hk, hnodup⟩ := List.nodup_cons.mp hnodup
    have hv : (h.blocks un).lookup k = some v := hms (k, v) (by simp)
    rcases @decryptMembers_cons h k P masterKey un v ms hv with
      ⟨e, he, hrun⟩ | ⟨w, m, hw, hrun, hm⟩
    · refine ⟨h.blocks un, some (.decrypt k e), ?_, ?_, by simp⟩
      · rw [hrun, setBlock, Function.update_eq_self]
      · simp [he]
    · have hself : (h.setBlock un m).blocks un = m := Function.update_self _ _ _
      have hother : ∀ p ∈ ms, p.1 ≠ k := fun p hp heq => hk (heq ▸ List.mem_map.mpr ⟨p, hp, rfl⟩)
      obtain ⟨m', r, hrun', hr, hlookup⟩ := ih hnodup fun p hp => by
        rw [hself, hm, if_neg (hother p hp), hms p (by simp [hp])]
      refine ⟨m', r, by rw [hrun, hrun']; simp [setBlock], by rw [hr]; simp [hw], fun hnone j => ?_⟩
      rw [hlookup hnone, hself, hm, KeyedList.lookup_cons_ite]
      by_cases hj : j = k
      · subst hj
        have hlast : ms.lookup j = none := by
          rw [List.lookup_eq_none_iff]
          intro p hp
          simpa using (hother p hp).symm
        rw [hlast, if_pos rfl, if_pos rfl, Option.elim_none, Option.elim_some, hw]
        rfl
      · rw [if_neg hj, if_neg hj]

/-- **Opening on the heap.** It fails exactly when opening the value fails, and else leaves the
opened value. Only the block is written, and only if it has members. -/
theorem decryptUnattend_spec (order : RangeOrder String) (hc : Holds h cfg (some o))
    (hopens : Opens h cfg) :
    let r := h.decryptUnattend P masterKey order cfg
    (r.2 = none ↔ ConfigOpens P masterKey (some o)) ∧
      (r.2 = none → Holds r.1 cfg (openConfig P masterKey (some o))) ∧
      ∃ blocks, r.1 = { h with blocks } ∧
        ∀ b, blocks b = h.blocks b ∨ h.unattend cfg = some b ∧ (h.blocks b).pairs ≠ [] := by
  dsimp only
  have hblock := hc.unattend
  unfold Heap.decryptUnattend
  cases hun : h.unattend cfg with
  | none =>
    rw [hun, Option.map_none, eq_comm, Option.map_eq_none_iff] at hblock
    rw [openConfig_of_unattend_none hblock]
    refine ⟨iff_of_true rfl fun un hun => ?_, fun _ => hc, h.blocks, rfl, fun b => .inl rfl⟩
    rw [hblock] at hun
    cases hun
  | some un =>
    rw [hun, Option.map_some, eq_comm, Option.map_eq_some_iff] at hblock
    obtain ⟨b, hb, hmembers⟩ := hblock
    have hlookup : ∀ k, (h.blocks un).lookup k = b.lookup k := fun k => by
      rw [KeyedMap.lookup, Object.lookup, hmembers]
    have hopenable : ConfigOpens P masterKey (some o) ↔ Openable P masterKey b := by
      constructor
      · intro h
        exact h b hb
      · intro h b' hb'
        rw [hb, Option.some.injEq] at hb'
        exact hb' ▸ h
    obtain ⟨m, r, hrun, hr, hm⟩ := @decryptMembers_spec h P masterKey un
      (order.visit (h.blocks un).pairs) (order.nodup_visit _) fun p hp => order.mem_visit.mp hp
    dsimp only
    rw [hrun]
    refine ⟨?_, fun hnone k => ?_, _, rfl, fun c => ?_⟩
    · rw [hr, hopenable]
      constructor
      · intro h k v hv
        exact h (k, v) (order.mem_visit.mpr ((hlookup k).trans hv))
      · intro h p hp
        exact h p.1 p.2 ((hlookup p.1).symm.trans (order.mem_visit.mp hp))
    · have hopened : ∀ k, m.lookup k = (openMembers P masterKey b).lookup k := fun k => by
        rw [hm hnone, order.lookup_visit, hlookup, lookup_openMembers]
        cases b.lookup k <;> rfl
      by_cases hk : k = "unattend"
      · have hpairs : m.pairs = (openMembers P masterKey b).members :=
          KeyedList.ext_lookup m.ordered (openMembers P masterKey b).ordered hopened
        have hslot : ((h.setBlock un m).config cfg).lookup "unattend" = some (.map un) :=
          unattend_eq_some.mp hun
        rw [hk, lookup, hslot, lookup_openConfig_unattend, hb, Option.map_some, Option.map_some,
          Option.some_or, Object.toJson, ← hpairs]
        simp [value, setBlock]
      · rw [lookup_openConfig hk, ← hc k]
        refine lookup_congr rfl fun c hslot => ?_
        -- the other slots refer to other maps, unless there was nothing to open
        by_cases hcu : c = un
        · subst hcu
          rcases hopens c hun with hnil | hown
          · have hsame : m = h.blocks c := by
              ext1 j
              rw [hm hnone, order.lookup_visit, KeyedMap.pairs_eq_nil_iff.mp hnil j]
              rfl
            rw [hsame, setBlock, Function.update_eq_self]
          · exact absurd (hown k hslot) hk
        · exact Function.update_of_ne hcu _ _
    · by_cases hcu : c = un
      · subst hcu
        by_cases hnil : (h.blocks c).pairs = []
        · -- an empty block has nothing to visit
          have hvisit : order.visit (h.blocks c).pairs = [] := by
            rw [hnil]
            exact (order.perm []).eq_nil
          rw [hvisit, decryptMembers] at hrun
          exact .inl (congrArg (fun r => r.1.blocks c) hrun).symm
        · exact .inr ⟨rfl, hnil⟩
      · exact .inl (Function.update_of_ne hcu _ _)

end

/-! ## What decoding makes -/

/-- The slots are new, each map has one slot, and they hold the members. -/
structure Loaded (h h' : Heap) (ms : Members) (slots : List (String × Slot)) : Prop where
  configs : h'.configs = h.configs
  nextConfig : h'.nextConfig = h.nextConfig
  grows : Extends h h'
  keys : slots.map Prod.fst = ms.map Prod.fst
  values : ∀ k, (slots.lookup k).map h'.value = ms.lookup k
  fresh : ∀ k b, (k, Slot.map b) ∈ slots → h.nextBlock ≤ b ∧ b < h'.nextBlock
  single : ∀ k k' b, (k, Slot.map b) ∈ slots → (k', Slot.map b) ∈ slots → k = k'

theorem loadValue_spec {v : Json} (hv : Canonical v) :
    let r := h.loadValue v
    r.1.configs = h.configs ∧ r.1.nextConfig = h.nextConfig ∧ Extends h r.1 ∧
      r.1.value r.2 = v ∧ ∀ b, r.2 = .map b → h.nextBlock ≤ b ∧ b < r.1.nextBlock := by
  cases v with
  | obj ms =>
    refine ⟨rfl, rfl, ⟨fun _ _ => rfl, fun b hb => ?_, le_rfl, Nat.le_succ _⟩, ?_, ?_⟩
    · simp [loadValue, makeBlock, assignBlock, hb.ne]
    · -- the members are distinct, so assigning them gives them back
      have hordered := (canonical_obj_iff.mp hv).1
      have hassign : (KeyedMap.empty.assign ms : KeyedMap String Json) = ⟨ms, hordered⟩ := by
        ext1 k
        rw [KeyedMap.lookup_assign (KeyedMap.nodup_keys ⟨ms, hordered⟩), KeyedMap.lookup_empty,
          Option.or_none]
        rfl
      simp [loadValue, makeBlock, assignBlock, value, hassign]
    · rintro b hb
      simp only [loadValue, makeBlock, assignBlock, Slot.map.injEq] at hb
      subst hb
      exact ⟨le_rfl, Nat.lt_succ_self _⟩
  | null | bool | num | str | arr =>
    exact ⟨rfl, rfl, .refl h, rfl, fun b hb => by simp [loadValue] at hb⟩

theorem loadMembers_spec {ms : Members} (hnodup : (ms.map Prod.fst).Nodup)
    (hms : ∀ p ∈ ms, Canonical p.2) :
    Loaded h (h.loadMembers ms).1 ms (h.loadMembers ms).2 := by
  induction ms generalizing h with
  | nil =>
    exact ⟨rfl, rfl, .refl h, rfl, fun _ => rfl, by simp [loadMembers], by simp [loadMembers]⟩
  | cons p ms ih =>
    obtain ⟨k, v⟩ := p
    obtain ⟨hk, hnodup⟩ := List.nodup_cons.mp hnodup
    obtain ⟨hconfigs, hnextConfig, hext, hvalue, hfresh⟩ :=
      loadValue_spec (h := h) (hms (k, v) (by simp))
    have hrest := ih (h := (h.loadValue v).1) hnodup fun p hp => hms p (by simp [hp])
    refine ⟨hrest.configs.trans hconfigs, hrest.nextConfig.trans hnextConfig,
      hext.trans hrest.grows, ?_, fun j => ?_, fun j b hb => ?_, fun j j' b hb hb' => ?_⟩
    · exact congrArg (k :: ·) hrest.keys
    · rw [loadMembers, KeyedList.lookup_cons_ite, KeyedList.lookup_cons_ite]
      split_ifs with hj
      · rw [Option.map_some, value_congr fun b hb => hrest.grows.blocks b (hfresh b hb).2, hvalue]
      · exact hrest.values j
    · rcases List.mem_cons.mp hb with heq | hb
      · obtain ⟨hle, hlt⟩ := hfresh b (Prod.ext_iff.mp heq).2.symm
        exact ⟨hle, hlt.trans_le hrest.grows.nextBlock⟩
      · obtain ⟨hle, hlt⟩ := hrest.fresh j b hb
        exact ⟨hext.nextBlock.trans hle, hlt⟩
    · -- the map of the first value is older than those of the others
      rcases List.mem_cons.mp hb with heq | hb <;> rcases List.mem_cons.mp hb' with heq' | hb'
      · exact (Prod.ext_iff.mp heq).1.trans (Prod.ext_iff.mp heq').1.symm
      · exact absurd ((hfresh b (Prod.ext_iff.mp heq).2.symm).2.trans_le (hrest.fresh j' b hb').1)
          (lt_irrefl b)
      · exact absurd ((hfresh b (Prod.ext_iff.mp heq').2.symm).2.trans_le (hrest.fresh j b hb).1)
          (lt_irrefl b)
      · exact hrest.single j j' b hb hb'

/-- **Decoding.** The new config holds the object in maps that nothing else refers to. -/
theorem load_spec (h : Heap) (o : Object) :
    let r := h.load o
    Extends h r.1 ∧ h.nextConfig ≤ r.2 ∧ Live r.1 (some r.2) ∧ Holds r.1 (some r.2) (some o) ∧
      (∀ k b, (r.1.config (some r.2)).lookup k = some (.map b) → h.nextBlock ≤ b) ∧
      ∀ k k' b, (r.1.config (some r.2)).lookup k = some (.map b) →
        (r.1.config (some r.2)).lookup k' = some (.map b) → k = k' := by
  have hnodup : (o.members.map Prod.fst).Nodup := KeyedMap.nodup_keys ⟨o.members, o.ordered⟩
  have hloaded := loadMembers_spec (h := h) hnodup (canonical_obj_iff.mp o.canonical).2
  dsimp only
  set h' := (h.loadMembers o.members).1 with hh'
  set slots := (h.loadMembers o.members).2 with hslots
  have hkeys : (slots.map Prod.fst).Nodup := hloaded.keys ▸ hnodup
  have hlookup : ∀ k, ((h.load o).1.config (some (h.load o).2)).lookup k = slots.lookup k := by
    intro k
    have hconfig : (h.load o).1.config (some (h.load o).2) = KeyedMap.empty.assign slots := by
      simp [load, config, makeConfig, assignConfig, hslots]
    rw [hconfig, KeyedMap.lookup_assign hkeys, KeyedMap.lookup_empty, Option.or_none]
  have hmem : ∀ k b, ((h.load o).1.config (some (h.load o).2)).lookup k = some (.map b) →
      (k, Slot.map b) ∈ slots := fun k b hb =>
    KeyedList.mem_of_lookup_eq_some ((hlookup k).symm.trans hb)
  have hgrows : Extends h' (h.load o).1 := by
    refine ⟨fun a ha => ?_, fun _ _ => rfl, Nat.le_succ _, le_rfl⟩
    simp [load, makeConfig, assignConfig, ← hh', ha.ne]
  refine ⟨hloaded.grows.trans hgrows, hloaded.nextConfig.ge, ⟨?_, fun k b hb => ?_⟩, fun k => ?_,
    fun k b hb => (hloaded.fresh k b (hmem k b hb)).1,
    fun k k' b hb hb' => hloaded.single k k' b (hmem k b hb) (hmem k' b hb')⟩
  · rintro a ⟨⟩
    exact Nat.lt_succ_self _
  · exact (hloaded.fresh k b (hmem k b hb)).2
  · rw [lookup, hlookup]
    exact hloaded.values k

/-! ## The default and a machine's config -/

/-- Opening the block of the first config writes nothing that the second refers to. -/
def Apart (h : Heap) (cfg cfg' : Option ℕ) : Prop :=
  ∀ b, h.unattend cfg = some b → ∀ k, (h.config cfg').lookup k ≠ some (.map b)

/-- Two configs in use that hold two objects, as decoding leaves them. -/
structure Decoded (h : Heap) (d p : Option ℕ) (base per : Config) : Prop where
  liveBase : Live h d
  livePer : Live h p
  base : Holds h d base
  per : Holds h p per
  opensBase : Opens h d
  opensPer : Opens h p
  apart : Apart h d p
  apart' : Apart h p d

theorem decoded_load (h : Heap) (base per : Object) :
    Decoded ((h.load base).1.load per).1 (some (h.load base).2)
      (some ((h.load base).1.load per).2) (some base) (some per) := by
  obtain ⟨-, -, hlive, hholds, -, hsingle⟩ := load_spec h base
  obtain ⟨hext, -, hlive', hholds', hfresh', hsingle'⟩ := load_spec (h.load base).1 per
  have hconfig := hlive.config_eq hext
  refine ⟨hlive.extends hext, hlive', hholds.extends hlive hext, hholds', fun un hun => .inr ?_,
    fun un hun => .inr ?_, fun b hb k hslot => ?_, fun b hb k hslot => ?_⟩
  · rw [unattend_eq_some, hconfig] at hun
    rw [hconfig]
    exact fun k hslot => hsingle _ _ _ hslot hun
  · exact fun k hslot => hsingle' _ _ _ hslot (unattend_eq_some.mp hun)
  · rw [unattend_eq_some, hconfig] at hb
    exact absurd ((hlive.slots _ _ hb).trans_le (hfresh' k b hslot)) (lt_irrefl b)
  · rw [hconfig] at hslot
    exact absurd ((hlive.slots _ _ hslot).trans_le (hfresh' _ b (unattend_eq_some.mp hb)))
      (lt_irrefl b)

theorem Decoded.symm {d p : Option ℕ} (hd : Decoded h d p baseCfg perCfg) :
    Decoded h p d perCfg baseCfg :=
  ⟨hd.livePer, hd.liveBase, hd.per, hd.base, hd.opensPer, hd.opensBase, hd.apart', hd.apart⟩

/-- Opening one of the two leaves the other. -/
theorem Decoded.decrypt (P : Primitives) (masterKey : Option Key) (order : RangeOrder String)
    {d p : Option ℕ} (hd : Decoded h d p (some o) perCfg) :
    ((h.decryptUnattend P masterKey order d).2 = none ↔ ConfigOpens P masterKey (some o)) ∧
      ((h.decryptUnattend P masterKey order d).2 = none →
        Decoded (h.decryptUnattend P masterKey order d).1 d p
          (openConfig P masterKey (some o)) perCfg) := by
  obtain ⟨hiff, hholds, blocks, hheap, hblocks⟩ :=
    @decryptUnattend_spec h d o P masterKey order hd.base hd.opensBase
  refine ⟨hiff, fun hnone => ?_⟩
  have hholds := hholds hnone
  rw [hheap] at hholds ⊢
  -- the references stay, and only the block of the first config is written
  have hkeep : ∀ c k, (h.config p).lookup k = some (.map c) → blocks c = h.blocks c :=
    fun c k hslot => (hblocks c).resolve_right fun hc => hd.apart c hc.1 k hslot
  refine ⟨⟨hd.liveBase.config, hd.liveBase.slots⟩, ⟨hd.livePer.config, hd.livePer.slots⟩, hholds,
    fun k => ?_, fun un hun => ?_, fun un hun => ?_, hd.apart, hd.apart'⟩
  · exact (@lookup_congr h { h with blocks } p k rfl fun c hslot => hkeep c k hslot).trans
      (hd.per k)
  · rcases hd.opensBase un hun with hnil | hown
    · have hsame := (hblocks un).resolve_right fun hc => hc.2 hnil
      exact .inl ((congrArg KeyedMap.pairs hsame).trans hnil)
    · exact .inr hown
  · rcases hd.opensPer un hun with hnil | hown
    · have hsame := hkeep un _ (unattend_eq_some.mp hun)
      exact .inl ((congrArg KeyedMap.pairs hsame).trans hnil)
    · exact .inr hown

end Heap

/-! ## The theorem -/

/-- The member of the overlaid blocks: the machine's own, else the default's. -/
def overlaid (base per : Object) (k : String) : Option Json :=
  ((per.object? "unattend").bind (·.lookup k)).or ((base.object? "unattend").bind (·.lookup k))

/-- The block is an object, or there is none. -/
def BlockOrAbsent (o : Object) : Prop :=
  o.lookup "unattend" = none ∨ ∃ un, o.object? "unattend" = some un

theorem overlaid_eq {base per : Object} {k : String} :
    overlaid base per k = (mergedUnattend (some base) (some per)).lookup k := by
  have hblock (o : Object) : (o.object? "unattend").bind (·.lookup k) =
      ((Config.unattend (some o)).getD Object.empty).lookup k := by
    change _ = ((o.object? "unattend").getD Object.empty).lookup k
    cases o.object? "unattend" <;> rfl
  rw [overlaid, hblock, hblock, mergedUnattend, Object.lookup_overlay]

/-- Two blocks that are objects or absent are merged member by member. -/
theorem mergeConfig_block {base per : Object} (hbase : BlockOrAbsent base) :
    ((mergeConfig (some base) (some per)).lookup "unattend" = none ∧
        ∀ k, overlaid base per k = none) ∨
      ∃ un : Object, (mergeConfig (some base) (some per)).lookup "unattend" = some un.toJson ∧
        ∀ k, un.lookup k = overlaid base per k := by
  simp only [overlaid_eq, lookup_mergeConfig_unattend]
  by_cases hnil : (mergedUnattend (some base) (some per)).members = []
  · rw [if_pos hnil]
    have hnone := Object.members_eq_nil_iff.mp hnil
    rcases hbase with habsent | ⟨un, hun⟩
    · exact .inl ⟨habsent, hnone⟩
    · refine .inr ⟨un, Object.object?_eq_some.mp hun, fun k => ?_⟩
      rw [hnone, Object.members_eq_nil_iff.mp (mergedUnattend_members_eq_nil hnil hun)]
  · rw [if_neg hnil]
    exact .inr ⟨_, rfl, fun k => rfl⟩

/-- **Overlaying and opening commute, on maps that are shared.** The two objects are decoded into
any heap, and every loop visits its pairs in an order of its own.

Outside the block the machine's config wins; two blocks that are objects or absent are merged
member by member. Opening the merge fails exactly when an envelope that survives the overlay does
not open. If both configs and the merge open, opening the merge gives what merging the opened
configs gives. Neither config is changed by merging and opening the merge. -/
theorem overlay_opens (P : Primitives) (masterKey : Option Key) (h : Heap) (base per : Object)
    (order order' : ℕ → RangeOrder String) (first second third : RangeOrder String) :
    let d := h.load base
    let p := d.1.load per
    let merged := p.1.mergeConfig order (some d.2) (some p.2)
    let opened := merged.1.decryptUnattend P masterKey third (some merged.2)
    (∀ k, k ≠ "unattend" →
      merged.1.lookup (some merged.2) k = (per.lookup k).or (base.lookup k)) ∧
    (BlockOrAbsent base → BlockOrAbsent per →
      (merged.1.lookup (some merged.2) "unattend" = none ∧ ∀ k, overlaid base per k = none) ∨
        ∃ un : Object, merged.1.lookup (some merged.2) "unattend" = some un.toJson ∧
          ∀ k, un.lookup k = overlaid base per k) ∧
    (opened.2 ≠ none ↔ ∃ k s, overlaid base per k = some (.str s) ∧
      isEncrypted (toBytes s) = true ∧
        ∃ e, decryptSecret P masterKey (toBytes s) = .error e) ∧
    (let d' := p.1.decryptUnattend P masterKey first (some d.2)
     let p' := d'.1.decryptUnattend P masterKey second (some p.2)
     let merged' := p'.1.mergeConfig order' (some d.2) (some p.2)
     d'.2 = none → p'.2 = none → opened.2 = none → ∀ k,
       opened.1.lookup (some merged.2) k = merged'.1.lookup (some merged'.2) k) ∧
    ∀ k, opened.1.lookup (some d.2) k = base.lookup k ∧
      opened.1.lookup (some p.2) k = per.lookup k := by
  intro d p merged opened
  have hd := Heap.decoded_load h base per
  obtain ⟨hext, hmerged, hopens, hnew⟩ :=
    Heap.holds_mergeConfig order hd.liveBase hd.livePer hd.base hd.per
  obtain ⟨hiff, hopened, blocks, hheap, hblocks⟩ :=
    @Heap.decryptUnattend_spec merged.1 (some merged.2) _ P masterKey third hmerged hopens
  have hobject : Config.object (some (mergeConfig (some base) (some per))) =
      mergeConfig (some base) (some per) := rfl
  refine ⟨fun k hk => ?_, fun hbase _ => ?_, ?_, ?_, ?_⟩
  · rw [hmerged k, hobject, lookup_mergeConfig_of_ne hk]
    rfl
  · rw [hmerged "unattend", hobject]
    exact mergeConfig_block hbase
  · simp only [overlaid_eq]
    rw [ne_eq, hiff, configOpens_mergeConfig_iff, not_openable_iff]
  · intro d' p' merged' hd' hp' hopen k
    obtain ⟨hbaseOpens, hbase⟩ := Heap.Decoded.decrypt P masterKey first hd
    obtain ⟨hperOpens, hper⟩ := Heap.Decoded.decrypt P masterKey second (hbase hd').symm
    have hboth := (hper hp').symm
    obtain ⟨-, hmerged', -, -⟩ :=
      Heap.holds_mergeConfig order' hboth.liveBase hboth.livePer hboth.base hboth.per
    rw [hopened hopen k, openConfig_mergeConfig (hbaseOpens.mp hd') (hperOpens.mp hp')]
    exact (hmerged' k).symm
  · -- only the new block is written, and the two configs do not refer to it
    have hframe : Heap.Extends p.1 opened.1 := by
      rw [hheap]
      refine ⟨hext.configs, fun b hb => ?_, hext.nextConfig, hext.nextBlock⟩
      rcases hblocks b with hsame | ⟨hun, hne⟩
      · exact hsame.trans (hext.blocks b hb)
      · exact absurd ((hnew b hun).resolve_left hne) (not_le.mpr hb)
    exact fun k => ⟨(hd.liveBase.lookup_eq hframe).trans (hd.base k),
      (hd.livePer.lookup_eq hframe).trans (hd.per k)⟩

end WinDep.Api
