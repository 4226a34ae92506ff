/-
# Resolving a machine's config

The api reads the default config and the config of the machine, overlays the
second on the first, the unattend block member by member, and opens every
envelope in the block. A machine without a config of its own is not enrolled.

Merging and opening commute: what is served is the merge of the opened files.
-/

import WinDep.Config.Secret
import WinDep.Files.Paths

namespace WinDep.Api

open Json Envelope

/-- What reading a file gives. -/
inductive FileRead
  | missing
  | failed
  | content (raw : Bytes)

/-- The files below `DATA_DIR` as the api reads them. -/
abbrev Tree := Path → FileRead

/-- The files the admin left on the disk. -/
def Tree.ofDisk (d : Disk) : Tree := fun p =>
  match d p with
  | none => .missing
  | some raw => .content raw

/-- `^[A-Za-z0-9-]{1,64}$` -/
def validSerial (s : String) : Bool :=
  s.toList.all (fun c => c.isAlphanum || c == '-') && 1 ≤ s.length && s.length ≤ 64

/-- Why a config is not resolved. -/
inductive ResolveError
  | unreadable
  | notJson
  | decrypt (field : String) (error : Envelope.Error)

/-- The parsed file, nothing if it does not exist. -/
def readConfigFile (tree : Tree) (rel : String) : Except ResolveError (Option Config) :=
  match tree (Path.join ["config"] rel) with
  | .missing => .ok none
  | .failed => .error .unreadable
  | .content raw =>
    match unmarshal (trimBOM raw) with
    | none => .error .notJson
    | some cfg => .ok (some cfg)

def withoutUnattend (o : Object) : Object :=
  o.mapMaybe (fun k v => if k = "unattend" then none else some v) fun k v w hv h => by
    split_ifs at h
    exact Option.some.inj h ▸ hv

/-- Overlay a machine's config on the default. -/
def mergeConfig (base per : Config) : Object :=
  let out := base.object.overlay (withoutUnattend per.object)
  let un := (base.unattend.getD Object.empty).overlay (per.unattend.getD Object.empty)
  -- an empty merged block leaves what the default has there, of any type
  if un.members = [] then out else out.setObject "unattend" un

section

variable (P : Primitives) (masterKey : Option Key)

/-- Open a value if it is an envelope. -/
def decryptMember (v : Json) : Except Envelope.Error Json :=
  match v with
  | .str s =>
    if isEncrypted (toBytes s) then
      (decryptSecret P masterKey (toBytes s)).map fun plain => .str (ofBytes plain)
    else .ok v
  | _ => .ok v

theorem canonical_decryptMember {v w : Json} (hv : Canonical v)
    (h : (decryptMember P masterKey v).toOption = some w) : Canonical w := by
  unfold decryptMember at h
  split at h
  · next s =>
    split_ifs at h
    · cases hopen : decryptSecret P masterKey (toBytes s) with
      | error e => simp [hopen, Except.map, Except.toOption] at h
      | ok plain =>
        obtain rfl : _ = w := by simpa [hopen, Except.map, Except.toOption] using h
        exact .str _
    · exact Option.some.inj h ▸ hv
  · exact Option.some.inj h ▸ hv

/-- The members opened; a member that does not open is missing. -/
def openMembers (un : Object) : Object :=
  un.mapMaybe (fun _ v => (decryptMember P masterKey v).toOption) fun _ _ _ =>
    canonical_decryptMember P masterKey

/-- A member that does not open. -/
def closedMember (un : Object) : Option (String × Envelope.Error) :=
  un.members.findSome? fun p =>
    match decryptMember P masterKey p.2 with
    | .error e => some (p.1, e)
    | .ok _ => none

def decryptUnattend (cfg : Object) : Except ResolveError Object :=
  match cfg.object? "unattend" with
  | none => .ok cfg
  | some un =>
    -- the first member that does not open fails the whole config
    match closedMember P masterKey un with
    | some (k, e) => .error (.decrypt k e)
    | none => .ok (cfg.setObject "unattend" (openMembers P masterKey un))

/-- The config of a machine, or nothing if it is not enrolled. -/
def resolveConfig (tree : Tree) (serial : String) : Except ResolveError (Option Object) :=
  match readConfigFile tree ("machines/" ++ serial ++ ".json") with
  | .error e => .error e
  | .ok none => .ok none
  | .ok (some per) =>
    match readConfigFile tree "default.json" with
    | .error e => .error e
    | .ok base => (decryptUnattend P masterKey (mergeConfig base.join per)).map some

end

/-! ## Merging -/

variable {P : Primitives} {masterKey : Option Key} {base per cfg : Config} {un un' : Object}
  {k : String} {v : Json}

/-- The two blocks merged, each empty if it is missing. -/
def mergedUnattend (base per : Config) : Object :=
  (base.unattend.getD Object.empty).overlay (per.unattend.getD Object.empty)

theorem lookup_mergeConfig_of_ne (hk : k ≠ "unattend") :
    (mergeConfig base per).lookup k = (per.object.lookup k).or (base.object.lookup k) := by
  have hwithout : (withoutUnattend per.object).lookup k = per.object.lookup k := by
    rw [withoutUnattend, Object.lookup_mapMaybe]
    simp [hk]
  rw [mergeConfig]
  split_ifs <;> simp [hk, hwithout]

theorem lookup_mergeConfig_unattend :
    (mergeConfig base per).lookup "unattend" =
      if (mergedUnattend base per).members = [] then base.object.lookup "unattend"
      else some (mergedUnattend base per).toJson := by
  have hwithout : (withoutUnattend per.object).lookup "unattend" = none := by
    rw [withoutUnattend, Object.lookup_mapMaybe]
    simp
  rw [mergeConfig, mergedUnattend]
  split_ifs <;> simp [hwithout]

/-- Configs that agree outside the block, have the same merged block, and fall back to the same
value when it is empty, merge alike. -/
theorem mergeConfig_congr {base' per' : Config}
    (hrest : ∀ k, k ≠ "unattend" → (per.object.lookup k).or (base.object.lookup k) =
      (per'.object.lookup k).or (base'.object.lookup k))
    (hblock : mergedUnattend base per = mergedUnattend base' per')
    (hbase : (mergedUnattend base per).members = [] →
      base.object.lookup "unattend" = base'.object.lookup "unattend") :
    mergeConfig base per = mergeConfig base' per' := by
  ext1 k
  by_cases hk : k = "unattend"
  · subst hk
    rw [lookup_mergeConfig_unattend, lookup_mergeConfig_unattend, ← hblock]
    split_ifs with hempty
    · exact hbase hempty
    · rfl
  · rw [lookup_mergeConfig_of_ne hk, lookup_mergeConfig_of_ne hk, hrest k hk]

theorem mergedUnattend_members_eq_nil {base per : Config}
    (h : (mergedUnattend base per).members = []) {un : Object} (hun : base.unattend = some un) :
    un.members = [] := by
  rw [Object.members_eq_nil_iff] at h ⊢
  intro k
  have hk := h k
  rw [mergedUnattend, hun, Option.getD_some, Object.lookup_overlay, Option.or_eq_none_iff] at hk
  exact hk.2

/-- Over one default, two configs merge alike exactly when every member, and every member of the
block, is overridden alike. -/
theorem mergeConfig_eq_iff {per' : Config} :
    mergeConfig base per = mergeConfig base per' ↔
      (∀ k, k ≠ "unattend" → (per.object.lookup k).or (base.object.lookup k) =
        (per'.object.lookup k).or (base.object.lookup k)) ∧
      ∀ k, (mergedUnattend base per).lookup k = (mergedUnattend base per').lookup k := by
  constructor
  · intro h
    refine ⟨fun k hk => ?_, ?_⟩
    · rw [← lookup_mergeConfig_of_ne hk, h, lookup_mergeConfig_of_ne hk]
    · -- a block that shows on one side only would be the default's own, which is empty then
      have absurd_of {per per' : Config} (hnil : (mergedUnattend base per).members = [])
          (hne : (mergedUnattend base per').members ≠ [])
          (h : mergeConfig base per = mergeConfig base per') : False := by
        have hlookup := congrArg (fun o : Object => o.lookup "unattend") h
        simp only [lookup_mergeConfig_unattend, if_pos hnil, if_neg hne] at hlookup
        exact hne (mergedUnattend_members_eq_nil hnil (Object.object?_eq_some.mpr hlookup))
      by_cases hnil : (mergedUnattend base per).members = []
      · by_cases hnil' : (mergedUnattend base per').members = []
        · intro k
          rw [Object.members_eq_nil_iff.mp hnil, Object.members_eq_nil_iff.mp hnil']
        · exact (absurd_of hnil hnil' h).elim
      · by_cases hnil' : (mergedUnattend base per').members = []
        · exact (absurd_of hnil' hnil h.symm).elim
        · have hlookup := congrArg (fun o : Object => o.lookup "unattend") h
          simp only [lookup_mergeConfig_unattend, if_neg hnil, if_neg hnil',
            Option.some.injEq] at hlookup
          intro k
          rw [Object.toJson_injective hlookup]
  · rintro ⟨hrest, hblock⟩
    exact mergeConfig_congr hrest (Object.ext hblock) fun _ => rfl

/-! ## Opening -/

/-- Every member of the block opens. -/
def Openable (P : Primitives) (masterKey : Option Key) (un : Object) : Prop :=
  ∀ k v, un.lookup k = some v → ∃ w, decryptMember P masterKey v = .ok w

theorem closedMember_eq_none : closedMember P masterKey un = none ↔ Openable P masterKey un := by
  rw [closedMember, List.findSome?_eq_none_iff]
  constructor
  · intro h k v hv
    have hmember := h _ (KeyedList.mem_of_lookup_eq_some hv)
    cases hopen : decryptMember P masterKey v with
    | error e => simp [hopen] at hmember
    | ok w => exact ⟨w, rfl⟩
  · rintro h ⟨k, v⟩ hmem
    obtain ⟨w, hw⟩ := h k v (KeyedList.lookup_of_mem un.ordered hmem)
    simp only [hw]

@[simp] theorem lookup_openMembers :
    (openMembers P masterKey un).lookup k =
      (un.lookup k).bind fun v => (decryptMember P masterKey v).toOption :=
  Object.lookup_mapMaybe

theorem openable_empty : Openable P masterKey Object.empty := by
  rintro k v ⟨⟩

theorem openMembers_empty : openMembers P masterKey Object.empty = Object.empty := by
  ext1 k
  simp

theorem Openable.overlay (h : Openable P masterKey un) (h' : Openable P masterKey un') :
    Openable P masterKey (un.overlay un') := by
  intro k v hv
  rw [Object.lookup_overlay, Option.or_eq_some_iff] at hv
  rcases hv with hv | ⟨-, hv⟩
  · exact h' k v hv
  · exact h k v hv

/-- Opening commutes with overlaying a block that opens. -/
theorem openMembers_overlay (h' : Openable P masterKey un') :
    openMembers P masterKey (un.overlay un') =
      (openMembers P masterKey un).overlay (openMembers P masterKey un') := by
  ext1 k
  simp only [lookup_openMembers, Object.lookup_overlay]
  cases hv : un'.lookup k with
  | none => simp
  | some v =>
    obtain ⟨w, hw⟩ := h' k v hv
    simp [hw, Except.toOption]

theorem openMembers_members_eq_nil (h : Openable P masterKey un) :
    (openMembers P masterKey un).members = [] ↔ un.members = [] := by
  rw [Object.members_eq_nil_iff, Object.members_eq_nil_iff]
  apply forall_congr'
  intro k
  rw [lookup_openMembers]
  cases hv : un.lookup k with
  | none => simp
  | some v =>
    obtain ⟨w, hw⟩ := h k v hv
    simp [hw, Except.toOption]

/-- The config with its block opened. -/
def openConfig (P : Primitives) (masterKey : Option Key) (cfg : Config) : Config :=
  match cfg.unattend with
  | some un => some (cfg.object.setObject "unattend" (openMembers P masterKey un))
  | none => cfg

/-- The block of the config opens, if there is one. -/
def ConfigOpens (P : Primitives) (masterKey : Option Key) (cfg : Config) : Prop :=
  ∀ un, cfg.unattend = some un → Openable P masterKey un

theorem unattend_openConfig :
    (openConfig P masterKey cfg).unattend = cfg.unattend.map (openMembers P masterKey) := by
  unfold openConfig
  split
  · next un h => rw [h, Admin.unattend_setObject, Option.map_some]
  · next h => rw [h, Option.map_none]

theorem lookup_openConfig (hk : k ≠ "unattend") :
    (openConfig P masterKey cfg).object.lookup k = cfg.object.lookup k := by
  unfold openConfig
  split
  · simp [Config.object, hk]
  · rfl

theorem openConfig_of_unattend_none (h : cfg.unattend = none) :
    openConfig P masterKey cfg = cfg := by
  simp [openConfig, h]

theorem ConfigOpens.getD (h : ConfigOpens P masterKey cfg) :
    Openable P masterKey (cfg.unattend.getD Object.empty) := by
  cases hun : cfg.unattend with
  | none => exact openable_empty
  | some un => exact h un hun

theorem getD_unattend_openConfig :
    (openConfig P masterKey cfg).unattend.getD Object.empty =
      openMembers P masterKey (cfg.unattend.getD Object.empty) := by
  rw [unattend_openConfig]
  cases cfg.unattend with
  | none => exact openMembers_empty.symm
  | some un => rfl

theorem mergedUnattend_openConfig (hper : ConfigOpens P masterKey per) :
    mergedUnattend (openConfig P masterKey base) (openConfig P masterKey per) =
      openMembers P masterKey (mergedUnattend base per) := by
  rw [mergedUnattend, mergedUnattend, getD_unattend_openConfig, getD_unattend_openConfig,
    openMembers_overlay hper.getD]

theorem lookup_openConfig_unattend :
    (openConfig P masterKey cfg).object.lookup "unattend" =
      (cfg.unattend.map fun un => (openMembers P masterKey un).toJson).or
        (cfg.object.lookup "unattend") := by
  unfold openConfig
  split
  · next un h => simp [Config.object, h]
  · next h => simp [h]

/-- The block of a merge: the merged block, or the default's own if that is empty. -/
theorem unattend_mergeConfig :
    Config.unattend (some (mergeConfig base per)) =
      if (mergedUnattend base per).members = [] then base.unattend
      else some (mergedUnattend base per) := by
  apply Option.ext
  intro un
  rw [Config.unattend, Object.object?_eq_some]
  change (mergeConfig base per).lookup "unattend" = _ ↔ _
  rw [lookup_mergeConfig_unattend]
  split_ifs
  · exact Object.object?_eq_some.symm
  · simp [Object.toJson_injective.eq_iff]

theorem ConfigOpens.mergeConfig (hbase : ConfigOpens P masterKey base)
    (hper : ConfigOpens P masterKey per) :
    ConfigOpens P masterKey (some (mergeConfig base per)) := by
  intro un hun
  rw [unattend_mergeConfig] at hun
  split_ifs at hun
  · exact hbase un hun
  · obtain rfl := Option.some.inj hun
    exact hbase.getD.overlay hper.getD

/-- A merge opens exactly when the merged block does. -/
theorem configOpens_mergeConfig_iff : ConfigOpens P masterKey (some (mergeConfig base per)) ↔
    Openable P masterKey (mergedUnattend base per) := by
  rw [ConfigOpens]
  simp only [unattend_mergeConfig]
  split_ifs with hnil
  · have hlookup := Object.members_eq_nil_iff.mp hnil
    constructor
    · intro _ k v hv
      rw [hlookup k] at hv
      cases hv
    · intro _ un hun k v hv
      rw [Object.members_eq_nil_iff.mp (mergedUnattend_members_eq_nil hnil hun) k] at hv
      cases hv
  · simp

/-- What does not open is an envelope that does not. -/
theorem not_openable_iff : ¬ Openable P masterKey un ↔ ∃ k s, un.lookup k = some (.str s) ∧
    isEncrypted (toBytes s) = true ∧ ∃ e, decryptSecret P masterKey (toBytes s) = .error e := by
  simp only [Openable, not_forall, not_exists, exists_prop]
  refine exists_congr fun k => ?_
  constructor
  · rintro ⟨v, hv, hclosed⟩
    cases v with
    | str s =>
      by_cases hsealed : isEncrypted (toBytes s) = true
      · refine ⟨s, hv, hsealed, ?_⟩
        cases hopen : decryptSecret P masterKey (toBytes s) with
        | error e => exact ⟨e, rfl⟩
        | ok plain => exact absurd (by rw [decryptMember, if_pos hsealed, hopen]; rfl) (hclosed _)
      · exact absurd (by rw [decryptMember, if_neg hsealed]) (hclosed (.str s))
    | null | bool | num | arr | obj => exact absurd rfl (hclosed _)
  · rintro ⟨s, hs, hsealed, e, he⟩
    refine ⟨_, hs, fun w => ?_⟩
    rw [decryptMember, if_pos hsealed, he]
    rintro ⟨⟩

/-- Opening commutes with merging. -/
theorem openConfig_mergeConfig (hbase : ConfigOpens P masterKey base)
    (hper : ConfigOpens P masterKey per) :
    (openConfig P masterKey (some (mergeConfig base per))).object =
      mergeConfig (openConfig P masterKey base) (openConfig P masterKey per) := by
  have hnil : (openMembers P masterKey (mergedUnattend base per)).members = [] ↔
      (mergedUnattend base per).members = [] :=
    openMembers_members_eq_nil (hbase.getD.overlay hper.getD)
  have hlookup : Config.object (some (mergeConfig base per)) = mergeConfig base per := rfl
  ext1 k
  by_cases hk : k = "unattend"
  · subst hk
    rw [lookup_openConfig_unattend, unattend_mergeConfig, hlookup, lookup_mergeConfig_unattend,
      lookup_mergeConfig_unattend, mergedUnattend_openConfig hper]
    by_cases hempty : (mergedUnattend base per).members = []
    · -- opened or not, the merged block is empty and the default's own is served
      rw [if_pos hempty, if_pos hempty, if_pos (hnil.mpr hempty), lookup_openConfig_unattend]
    · rw [if_neg hempty, if_neg hempty, if_neg (mt hnil.mp hempty), Option.map_some,
        Option.some_or]
  · rw [lookup_openConfig hk, hlookup, lookup_mergeConfig_of_ne hk, lookup_mergeConfig_of_ne hk,
      lookup_openConfig hk, lookup_openConfig hk]

/-- A block that opens is served opened. -/
theorem decryptUnattend_of_opens {o : Object} (h : ConfigOpens P masterKey (some o)) :
    decryptUnattend P masterKey o = .ok (openConfig P masterKey (some o)).object := by
  have hblock : Config.unattend (some o) = o.object? "unattend" := rfl
  rw [decryptUnattend, openConfig, hblock]
  cases hun : o.object? "unattend" with
  | none => rfl
  | some un =>
    simp only [closedMember_eq_none.mpr (h un hun)]
    rfl

/-- **Opening a merge.** If the blocks of both files open, the merge opens, and what is served
is the merge of the opened files. -/
theorem decryptUnattend_mergeConfig (hbase : ConfigOpens P masterKey base)
    (hper : ConfigOpens P masterKey per) :
    decryptUnattend P masterKey (mergeConfig base per) =
      .ok (mergeConfig (openConfig P masterKey base) (openConfig P masterKey per)) := by
  rw [decryptUnattend_of_opens (hbase.mergeConfig hper), openConfig_mergeConfig hbase hper]

/-- Conversely, a merge that opens has a machine file that opens. -/
theorem configOpens_of_decryptUnattend {o : Object}
    (h : decryptUnattend P masterKey (mergeConfig base per) = .ok o) :
    ConfigOpens P masterKey per := by
  intro un hun k v hv
  have hmerged : (mergedUnattend base per).lookup k = some v := by
    rw [mergedUnattend, hun, Option.getD_some, Object.lookup_overlay, hv, Option.some_or]
  -- the machine's own member wins, so the merged block has it and is opened
  have hne : (mergedUnattend base per).members ≠ [] := by
    intro hnil
    rw [Object.members_eq_nil_iff] at hnil
    rw [hnil k] at hmerged
    simp at hmerged
  have hblock : (mergeConfig base per).object? "unattend" = some (mergedUnattend base per) :=
    unattend_mergeConfig.trans (if_neg hne)
  rw [decryptUnattend, hblock] at h
  cases hclosed : closedMember P masterKey (mergedUnattend base per) with
  | some p => simp [hclosed] at h
  | none => exact closedMember_eq_none.mp hclosed k v hmerged

end WinDep.Api
