/-
# Showing a config and saving it back

The editor is sent the masked config and sends it back with the sentinel where
nothing was typed. Three programs read the same file on that way: the mask, the
decoder of what comes back, and the reader of the previous file. The first part
says when they agree, so that nothing is lost. The second part is about two files
that differ in their secrets only, and says when the mask hides the difference.
-/

import WinDep.Config.Secret

namespace WinDep.Admin

open Json

variable {P : Primitives} {masterKey : Option Key} {ivs : String → IV} {raw raw' masked : Bytes}
  {cfg cfg' : Config} {un un' prevUn : Object} {k : String} {v w : Json}

/-! ## What the mask leaves -/

/-- The masked block, whether or not the config has one. -/
theorem unattend_maskConfig :
    (maskConfig cfg).unattend = cfg.unattend.map maskUnattend := by
  unfold maskConfig
  split
  · next un h => rw [h, unattend_setObject, Option.map_some]
  · next h => rw [h, Option.map_none]

/-- Outside the block the masked config is the stored one. -/
theorem lookup_maskConfig (hk : k ≠ "unattend") :
    (maskConfig cfg).object.lookup k = cfg.object.lookup k := by
  unfold maskConfig
  split
  · simp [Config.object, hk]
  · rfl

theorem maskConfigJSON_eq_some :
    maskConfigJSON raw = some masked ↔
      ∃ cfg, unmarshal (trimBOM raw) = some cfg ∧ marshalIndent (maskConfig cfg) = masked :=
  Option.map_eq_some_iff

theorem maskMember_of_not_secret (hk : isSecretField k = false) : maskMember k v = v := by
  cases v <;> simp [maskMember, hk]

@[simp] theorem maskMember_blank : maskMember k (.str "") = .str "" := by
  simp [maskMember]

theorem maskMember_set {s : String} (hk : isSecretField k = true) (hs : s ≠ "") :
    maskMember k (.str s) = .str keepSentinel := by
  simp [maskMember, hk, hs]

/-- Only strings are masked. -/
theorem maskMember_of_not_str (hv : v.str? = none) : maskMember k v = v := by
  cases v with
  | str s => simp at hv
  | null | bool | num | arr | obj => rfl

/-! ## Saving what was shown -/

/-- A secret member with nothing in it, which a save may drop. -/
def Blank (un : Object) (k : String) : Prop :=
  isSecretField k = true ∧ un.lookup k = some (.str "")

/-- The same JSON value, up to blank secrets that may be absent from the second. -/
structure SameButBlank (cfg cfg' : Config) : Prop where
  null_iff : cfg = none ↔ cfg' = none
  outside : ∀ k, k ≠ "unattend" → cfg'.object.lookup k = cfg.object.lookup k
  /-- A block that is no object is kept as it is. -/
  odd : cfg.unattend = none →
    cfg'.object.lookup "unattend" = cfg.object.lookup "unattend"
  block : ∀ un, cfg.unattend = some un → ∃ un', cfg'.unattend = some un' ∧
    ∀ k, un'.lookup k = un.lookup k ∨ Blank un k ∧ un'.lookup k = none

/-- Masking the file and saving the result over it gives the file's value back. -/
def SavesBack (P : Primitives) (masterKey : Option Key) (ivs : String → IV)
    (raw masked : Bytes) : Prop :=
  ∃ out cfg cfg', encryptConfigJSON P masterKey ivs masked raw = some out ∧
    unmarshal (trimBOM raw) = some cfg ∧ unmarshal (trimBOM out) = some cfg' ∧
    SameButBlank cfg cfg'

/-- Every secret of the file is a string, and blank if the file begins with a byte-order
mark. -/
def Keepable (raw : Bytes) : Prop :=
  ∀ cfg un, unmarshal (trimBOM raw) = some cfg → cfg.unattend = some un →
    ∀ k v, isSecretField k = true → un.lookup k = some v →
      ∃ s, v = .str s ∧ (byteOrderMark <+: raw → s = "")

/-- A set secret comes back as whatever string the previous block has for it. -/
theorem storeMember_keep (hk : isSecretField k = true) :
    storeMember P masterKey ivs prevUn k (.str keepSentinel) =
      ((prevUn.lookup k).bind str?).elim none fun s => if s = "" then none else some (.str s) := by
  rw [storeMember, if_pos hk, resolveSecret, str?_str, Option.getD_some, if_pos rfl]
  cases (prevUn.lookup k).bind str? with
  | none => simp
  | some s => rfl

theorem storeMember_blank (hk : isSecretField k = true) (hv : v.str?.getD "" = "") :
    storeMember P masterKey ivs prevUn k v = none := by
  have hkeep : "" ≠ keepSentinel := by decide
  simp [storeMember, hk, hv, resolveSecret, hkeep]

/-- One secret member is saved back, or blank, exactly when it is a string that the previous
block knows. -/
theorem storeMember_maskMember_iff (hk : isSecretField k = true)
    (hprev : prevUn.lookup k = none ∨ prevUn.lookup k = some v) :
    (storeMember P masterKey ivs prevUn k (maskMember k v) = some v ∨
        v = .str "" ∧ storeMember P masterKey ivs prevUn k (maskMember k v) = none) ↔
      ∃ s, v = .str s ∧ (prevUn.lookup k = none → s = "") := by
  cases hstr : v.str? with
  | none =>
    -- a value that is no string is shown, and dropped when it comes back
    rw [maskMember_of_not_str hstr, storeMember_blank hk (by rw [hstr]; rfl)]
    constructor
    · rintro (h | ⟨rfl, -⟩)
      · cases h
      · simp at hstr
    · rintro ⟨s, rfl, -⟩
      simp at hstr
  | some s =>
    obtain rfl := str?_eq_some.mp hstr
    by_cases hs : s = ""
    · subst hs
      rw [maskMember_blank, storeMember_blank hk rfl]
      simp
    · rw [maskMember_set hk hs, storeMember_keep hk]
      rcases hprev with hprev | hprev
      · simp [hprev, hs]
      · simp [hprev, hs]

/-- The saved block agrees with the stored one member by member exactly when each secret is
kept. -/
theorem storeUnattend_maskUnattend_iff
    (hprev : ∀ k v, un.lookup k = some v → prevUn.lookup k = none ∨ prevUn.lookup k = some v) :
    (∀ k, (storeUnattend P masterKey ivs prevUn (maskUnattend un)).lookup k = un.lookup k ∨
        Blank un k ∧
          (storeUnattend P masterKey ivs prevUn (maskUnattend un)).lookup k = none) ↔
      ∀ k v, isSecretField k = true → un.lookup k = some v →
        ∃ s, v = .str s ∧ (prevUn.lookup k = none → s = "") := by
  have hmember : ∀ k v, un.lookup k = some v →
      (storeUnattend P masterKey ivs prevUn (maskUnattend un)).lookup k =
        storeMember P masterKey ivs prevUn k (maskMember k v) := fun k v hv => by
    rw [lookup_storeUnattend, lookup_maskUnattend, hv, Option.map_some, Option.bind_some]
  constructor
  · intro h k v hk hv
    rw [← @storeMember_maskMember_iff P masterKey ivs prevUn k v hk (hprev k v hv),
      ← hmember k v hv]
    rcases h k with hsame | ⟨⟨-, hblank⟩, hnone⟩
    · exact .inl (hsame.trans hv)
    · exact .inr ⟨Option.some.inj (hv ▸ hblank), hnone⟩
  · intro h k
    cases hv : un.lookup k with
    | none => exact .inl (by simp [hv])
    | some v =>
      rw [hmember k v hv]
      cases hk : isSecretField k with
      | false =>
        rw [maskMember_of_not_secret hk, storeMember_of_not_secret hk]
        exact .inl rfl
      | true =>
        rcases (storeMember_maskMember_iff hk (hprev k v hv)).mpr (h k v hk hv) with h | ⟨rfl, h⟩
        · exact .inl h
        · exact .inr ⟨⟨hk, hv⟩, h⟩

theorem storeConfig_eq_none : storeConfig P masterKey ivs prevUn cfg = none ↔ cfg = none := by
  cases cfg with
  | none => exact iff_of_true rfl rfl
  | some o => unfold storeConfig; split <;> simp

theorem maskConfig_eq_none : maskConfig cfg = none ↔ cfg = none := by
  cases cfg with
  | none => exact iff_of_true rfl rfl
  | some o => unfold maskConfig; split <;> simp

theorem lookup_unattend_storeConfig (h : cfg.unattend = none) :
    (storeConfig P masterKey ivs prevUn cfg).object.lookup "unattend" =
      cfg.object.lookup "unattend" := by
  rw [storeConfig, h]

theorem lookup_unattend_maskConfig (h : cfg.unattend = none) :
    (maskConfig cfg).object.lookup "unattend" = cfg.object.lookup "unattend" := by
  rw [maskConfig, h]

/-- Only the block can be lost. -/
theorem sameButBlank_iff :
    SameButBlank cfg (storeConfig P masterKey ivs prevUn (maskConfig cfg)) ↔
      ∀ un, cfg.unattend = some un → ∀ k,
        (storeUnattend P masterKey ivs prevUn (maskUnattend un)).lookup k = un.lookup k ∨
          Blank un k ∧
            (storeUnattend P masterKey ivs prevUn (maskUnattend un)).lookup k = none := by
  have hblock : ∀ un, cfg.unattend = some un →
      (storeConfig P masterKey ivs prevUn (maskConfig cfg)).unattend =
        some (storeUnattend P masterKey ivs prevUn (maskUnattend un)) := fun un hun => by
    rw [unattend_storeConfig, unattend_maskConfig, hun, Option.map_some, Option.map_some]
  constructor
  · intro h un hun
    obtain ⟨un', hun', hsame⟩ := h.block un hun
    rw [hblock un hun, Option.some.injEq] at hun'
    exact hun' ▸ hsame
  · intro h
    refine ⟨by rw [storeConfig_eq_none, maskConfig_eq_none], fun k hk => ?_, fun hodd => ?_,
      fun un hun => ⟨_, hblock un hun, h un hun⟩⟩
    · rw [lookup_storeConfig hk, lookup_maskConfig hk]
    · rw [lookup_unattend_storeConfig (by rw [unattend_maskConfig, hodd, Option.map_none]),
        lookup_unattend_maskConfig hodd]

theorem savesBack_iff_keepable (hcfg : unmarshal (trimBOM raw) = some cfg) :
    SavesBack P masterKey ivs raw (marshalIndent (maskConfig cfg)) ↔ Keepable raw := by
  have hmasked := shallow_maskConfig (shallow_of_unmarshal hcfg)
  have hsave : SavesBack P masterKey ivs raw (marshalIndent (maskConfig cfg)) ↔
      SameButBlank cfg
        (storeConfig P masterKey ivs (prevUnattend raw) (maskConfig cfg)) := by
    have hout : encryptConfigJSON P masterKey ivs (marshalIndent (maskConfig cfg)) raw = some _ :=
      encryptConfigJSON_eq_some.mpr
        ⟨_, by rw [trimBOM_marshalIndent, unmarshal_marshalIndent hmasked], rfl⟩
    simp [SavesBack, hout, hcfg, unmarshal_marshalIndent (shallow_storeConfig hmasked)]
  -- the previous block has the same members, or none behind a byte-order mark
  have hprev : ∀ un, cfg.unattend = some un → ∀ k v, un.lookup k = some v →
      (prevUnattend raw).lookup k = none ∨ (prevUnattend raw).lookup k = some v := by
    intro un hun k v hv
    rw [prevUnattend_of_unmarshal hcfg, hun]
    split_ifs
    · exact .inl rfl
    · exact .inr hv
  have hmark : ∀ un, cfg.unattend = some un → ∀ k v, un.lookup k = some v →
      ((prevUnattend raw).lookup k = none ↔ byteOrderMark <+: raw) := by
    intro un hun k v hv
    rw [prevUnattend_of_unmarshal hcfg, hun]
    split_ifs with hbom
    · simp [hbom]
    · simp [hbom, hv]
  have hkeepable : Keepable raw ↔ ∀ un, cfg.unattend = some un → ∀ k v,
      isSecretField k = true → un.lookup k = some v →
        ∃ s, v = .str s ∧ (byteOrderMark <+: raw → s = "") := by
    constructor
    · intro h un hun
      exact h cfg un hcfg hun
    · intro h cfg' un hcfg' hun
      rw [hcfg, Option.some.injEq] at hcfg'
      exact h un (hcfg' ▸ hun)
  rw [hsave, sameButBlank_iff, hkeepable]
  refine forall_congr' fun un => forall_congr' fun hun => ?_
  rw [storeUnattend_maskUnattend_iff (hprev un hun)]
  refine forall_congr' fun k => forall_congr' fun v => forall_congr' fun _ =>
    forall_congr' fun hv => ?_
  rw [hmark un hun k v hv]

/-- **A masked config is saved back exactly when its secrets are kept.** The save itself never
fails, whatever the key and the vectors are. -/
theorem savesBack_iff (P : Primitives) (masterKey : Option Key) (ivs : String → IV)
    (raw masked : Bytes) (h : maskConfigJSON raw = some masked) :
    SavesBack P masterKey ivs raw masked ↔ Keepable raw := by
  obtain ⟨cfg, hcfg, rfl⟩ := maskConfigJSON_eq_some.mp h
  exact savesBack_iff_keepable hcfg

/-- A config with one password and its byte-order mark, as an editor may leave it. -/
def markedConfig : Bytes := byteOrderMark ++ marshalIndent (Config.oneMember "LOCALADMINPASS" "x")

theorem unmarshal_markedConfig :
    unmarshal (trimBOM markedConfig) = some (Config.oneMember "LOCALADMINPASS" "x") := by
  have htrim : trimBOM markedConfig = marshalIndent (Config.oneMember "LOCALADMINPASS" "x") := by
    rw [trimBOM, markedConfig, if_pos (by simp), List.drop_left]
  rw [htrim, unmarshal_marshalIndent (Config.shallow_oneMember _ _)]

theorem maskConfigJSON_markedConfig :
    maskConfigJSON markedConfig =
      some (marshalIndent (maskConfig (Config.oneMember "LOCALADMINPASS" "x"))) :=
  maskConfigJSON_eq_some.mpr ⟨_, unmarshal_markedConfig, rfl⟩

theorem savesBack_iff_marked :
    SavesBack default none sampleIVs markedConfig
      (marshalIndent (maskConfig (Config.oneMember "LOCALADMINPASS" "x"))) ↔
        Keepable markedConfig :=
  savesBack_iff default none sampleIVs markedConfig _ maskConfigJSON_markedConfig

/-- The password of a config with a byte-order mark is lost, with any key. -/
theorem marked_password_lost :
    ∃ masked, maskConfigJSON markedConfig = some masked ∧
      ∀ (P : Primitives) (masterKey : Option Key) (ivs : String → IV),
        ¬ SavesBack P masterKey ivs markedConfig masked := by
  refine ⟨_, maskConfigJSON_markedConfig, fun P masterKey ivs hsaves => ?_⟩
  have hkeepable := (savesBack_iff_keepable unmarshal_markedConfig).mp hsaves
  obtain ⟨s, hs, hblank⟩ := hkeepable _ _ unmarshal_markedConfig
    (Config.unattend_oneMember "LOCALADMINPASS" "x") "LOCALADMINPASS" (.str "x") (by decide)
    (Config.lookup_oneMember _ _)
  rw [hblank ⟨_, rfl⟩] at hs
  simp at hs

/-! ## Two configs that differ in their secrets -/

/-- The block has a secret member that is set: neither null nor blank. -/
def SetSecret (un : Object) (k : String) : Prop :=
  isSecretField k = true ∧ ∃ v, un.lookup k = some v ∧ v ≠ .null ∧ v ≠ .str ""

/-- The same JSON value up to the values of set secrets. -/
structure SameButSecrets (cfg cfg' : Config) : Prop where
  null_iff : cfg = none ↔ cfg' = none
  outside : ∀ k, k ≠ "unattend" → cfg.object.lookup k = cfg'.object.lookup k
  odd : cfg.unattend = none → cfg.object.lookup "unattend" = cfg'.object.lookup "unattend"
  block : ∀ un, cfg.unattend = some un → ∃ un', cfg'.unattend = some un' ∧
    ∀ k, un.lookup k = un'.lookup k ∨ SetSecret un k ∧ SetSecret un' k

/-- Two texts decode to configs that are the same up to the values of set secrets. -/
def SameTexts (raw raw' : Bytes) : Prop :=
  ∃ cfg cfg', unmarshal (trimBOM raw) = some cfg ∧ unmarshal (trimBOM raw') = some cfg' ∧
    SameButSecrets cfg cfg'

/-- Wherever the two texts have different secrets, both are strings. -/
def DifferInStrings (raw raw' : Bytes) : Prop :=
  ∀ cfg cfg' un un', unmarshal (trimBOM raw) = some cfg → unmarshal (trimBOM raw') = some cfg' →
    cfg.unattend = some un → cfg'.unattend = some un' →
      ∀ k v w, isSecretField k = true → un.lookup k = some v → un'.lookup k = some w →
        v = w ∨ ∃ s t, v = .str s ∧ w = .str t

theorem SameButSecrets.unattend_eq_none (h : SameButSecrets cfg cfg')
    (hun : cfg.unattend = none) : cfg'.unattend = none := by
  rw [Config.unattend, Object.object?_eq_none] at hun ⊢
  intro b hb
  exact hun b ((h.odd (by rwa [Config.unattend, Object.object?_eq_none])).trans hb)

/-- The mask shows two set values alike exactly when both are strings, or equal. -/
theorem maskMember_eq_iff (hk : isSecretField k = true) (hv : v ≠ .str "") (hw : w ≠ .str "") :
    maskMember k v = maskMember k w ↔ v = w ∨ ∃ s t, v = .str s ∧ w = .str t := by
  cases hstr : v.str? with
  | none =>
    have hne : ∀ s, v ≠ .str s := by
      rintro s rfl
      simp at hstr
    rw [maskMember_of_not_str hstr]
    constructor
    · intro h
      cases hstr' : w.str? with
      | none => exact .inl (h.trans (maskMember_of_not_str hstr'))
      | some t =>
        -- a masked string is the sentinel, and the value is no string
        obtain rfl := str?_eq_some.mp hstr'
        rw [maskMember_set hk (fun ht => hw (by rw [ht]))] at h
        exact absurd h (hne _)
    · rintro (rfl | ⟨s, _, rfl, -⟩)
      · exact (maskMember_of_not_str hstr).symm
      · exact absurd rfl (hne s)
  | some s =>
    obtain rfl := str?_eq_some.mp hstr
    have hs : s ≠ "" := fun hs => hv (by rw [hs])
    rw [maskMember_set hk hs]
    constructor
    · intro h
      cases hstr' : w.str? with
      | none =>
        rw [maskMember_of_not_str hstr'] at h
        rw [← h] at hstr'
        simp at hstr'
      | some t => exact .inr ⟨s, t, rfl, str?_eq_some.mp hstr'⟩
    · rintro (rfl | ⟨_, t, -, rfl⟩)
      · exact (maskMember_set hk hs).symm
      · exact (maskMember_set hk fun ht => hw (by rw [ht])).symm

theorem Config.ext_lookup (hnull : cfg = none ↔ cfg' = none)
    (h : ∀ k, cfg.object.lookup k = cfg'.object.lookup k) : cfg = cfg' := by
  cases cfg with
  | none => exact (hnull.mp rfl).symm
  | some o =>
    cases cfg' with
    | none => exact hnull.mpr rfl
    | some o' => exact congrArg some (Object.ext h)

/-- Two configs are masked alike exactly when their blocks are. -/
theorem maskConfig_eq_iff (h : SameButSecrets cfg cfg') :
    maskConfig cfg = maskConfig cfg' ↔ ∀ un un', cfg.unattend = some un →
      cfg'.unattend = some un' → maskUnattend un = maskUnattend un' := by
  constructor
  · intro heq un un' hun hun'
    have hblock := congrArg Config.unattend heq
    rw [unattend_maskConfig, unattend_maskConfig, hun, hun'] at hblock
    exact Option.some.inj hblock
  · intro hblock
    refine Config.ext_lookup (by rw [maskConfig_eq_none, maskConfig_eq_none, h.null_iff])
      fun k => ?_
    by_cases hk : k = "unattend"
    · subst hk
      cases hun : cfg.unattend with
      | none =>
        rw [lookup_unattend_maskConfig hun,
          lookup_unattend_maskConfig (h.unattend_eq_none hun), h.odd hun]
      | some un =>
        obtain ⟨un', hun', -⟩ := h.block un hun
        have hmask : (maskConfig cfg).unattend = some (maskUnattend un) := by
          rw [unattend_maskConfig, hun, Option.map_some]
        have hmask' : (maskConfig cfg').unattend = some (maskUnattend un') := by
          rw [unattend_maskConfig, hun', Option.map_some]
        rw [Object.object?_eq_some.mp hmask, Object.object?_eq_some.mp hmask',
          hblock un un' hun hun']
    · rw [lookup_maskConfig hk, lookup_maskConfig hk, h.outside k hk]

/-- Two blocks that differ in set secrets only are masked alike exactly when these are
strings. -/
theorem maskUnattend_eq_iff
    (h : ∀ k, un.lookup k = un'.lookup k ∨ SetSecret un k ∧ SetSecret un' k) :
    maskUnattend un = maskUnattend un' ↔ ∀ k v w, isSecretField k = true →
      un.lookup k = some v → un'.lookup k = some w → v = w ∨ ∃ s t, v = .str s ∧ w = .str t := by
  constructor
  · intro heq k v w hk hv hw
    rcases h k with hsame | ⟨⟨-, v', hv', -, hblank⟩, -, w', hw', -, hblank'⟩
    · exact .inl (Option.some.inj (hv.symm.trans (hsame.trans hw)))
    · rw [hv, Option.some.injEq] at hv'
      rw [hw, Option.some.injEq] at hw'
      subst hv' hw'
      have hlookup := congrArg (Object.lookup · k) heq
      simp only [lookup_maskUnattend, hv, hw, Option.map_some, Option.some.injEq] at hlookup
      exact (maskMember_eq_iff hk hblank hblank').mp hlookup
  · intro hstrings
    ext1 k
    rw [lookup_maskUnattend, lookup_maskUnattend]
    rcases h k with hsame | ⟨⟨hk, v, hv, -, hblank⟩, -, w, hw, -, hblank'⟩
    · rw [hsame]
    · rw [hv, hw, Option.map_some, Option.map_some,
        (maskMember_eq_iff hk hblank hblank').mpr (hstrings k v w hk hv hw)]

/-- **Masking hides a difference in secrets exactly when it is one of strings.** -/
theorem masked_eq_iff (raw raw' masked masked' : Bytes) (hraw : maskConfigJSON raw = some masked)
    (hraw' : maskConfigJSON raw' = some masked') (h : SameTexts raw raw') :
    masked = masked' ↔ DifferInStrings raw raw' := by
  obtain ⟨cfg, hcfg, rfl⟩ := maskConfigJSON_eq_some.mp hraw
  obtain ⟨cfg', hcfg', rfl⟩ := maskConfigJSON_eq_some.mp hraw'
  obtain ⟨_, _, hdecode, hdecode', hsame⟩ := h
  rw [hcfg, Option.some.injEq] at hdecode
  rw [hcfg', Option.some.injEq] at hdecode'
  subst hdecode hdecode'
  rw [marshalIndent_injective.eq_iff, maskConfig_eq_iff hsame]
  constructor
  · intro hmask cfg₁ cfg₂ un un' hcfg₁ hcfg₂ hun hun'
    rw [hcfg, Option.some.injEq] at hcfg₁
    rw [hcfg', Option.some.injEq] at hcfg₂
    subst hcfg₁ hcfg₂
    obtain ⟨_, hun₂, hblock⟩ := hsame.block un hun
    rw [hun', Option.some.injEq] at hun₂
    subst hun₂
    exact (maskUnattend_eq_iff hblock).mp (hmask un un' hun hun')
  · intro hstrings un un' hun hun'
    obtain ⟨_, hun₂, hblock⟩ := hsame.block un hun
    rw [hun', Option.some.injEq] at hun₂
    subst hun₂
    exact (maskUnattend_eq_iff hblock).mpr (hstrings cfg cfg' un un' hcfg hcfg' hun hun')

/-- A config whose administrator password is a number. -/
def pinConfig (pin : ℕ) : Config :=
  some (Object.ofMembers [("unattend", .obj [("LOCALADMINPASS", .num (.ofInt pin))])])

/-- The block of that config. -/
def pinBlock (pin : ℕ) : Object := Object.ofMembers [("LOCALADMINPASS", .num (.ofInt pin))]

theorem unattend_pinConfig (pin : ℕ) : (pinConfig pin).unattend = some (pinBlock pin) := by
  rw [Config.unattend, Object.object?_eq_some]
  simp [pinConfig, pinBlock, Config.object, Object.lookup, Object.ofMembers, Object.toJson,
    normalizeMembers, Json.normalize, KeyedList.set]

theorem shallow_pinConfig (pin : ℕ) : (pinConfig pin).Shallow := by
  refine (nesting_normalize_le (.obj _)).trans ?_
  simp [nesting, nestingMembers, maxNestingDepth]

/-- A number that is a double. -/
def IsDouble (pin : ℕ) : Prop := (Number.ofInt pin).float? = some (.ofInt pin)

instance (pin : ℕ) : Decidable (IsDouble pin) := inferInstanceAs (Decidable (_ = _))

theorem lookup_pinBlock {pin : ℕ} (h : IsDouble pin) :
    (pinBlock pin).lookup k = if k = "LOCALADMINPASS" then some (.num (.ofInt pin)) else none := by
  simp [pinBlock, Object.lookup, Object.ofMembers, normalizeMembers, Json.normalize,
    KeyedList.set, KeyedList.lookup_cons_ite, show (Number.ofInt pin).float? = _ from h]

theorem maskConfigJSON_marshalIndent (h : cfg.Shallow) :
    maskConfigJSON (marshalIndent cfg) = some (marshalIndent (maskConfig cfg)) := by
  rw [maskConfigJSON, trimBOM_marshalIndent, unmarshal_marshalIndent h, Option.map_some]

theorem sameTexts_pinConfig {pin pin' : ℕ} (h : IsDouble pin) (h' : IsDouble pin') :
    SameTexts (marshalIndent (pinConfig pin)) (marshalIndent (pinConfig pin')) := by
  have hread (pin : ℕ) : unmarshal (trimBOM (marshalIndent (pinConfig pin))) =
      some (pinConfig pin) := by
    rw [trimBOM_marshalIndent, unmarshal_marshalIndent (shallow_pinConfig pin)]
  have hset {pin : ℕ} (h : IsDouble pin) : SetSecret (pinBlock pin) "LOCALADMINPASS" :=
    ⟨by decide, .num (.ofInt pin), by rw [lookup_pinBlock h, if_pos rfl], by simp, by simp⟩
  refine ⟨pinConfig pin, pinConfig pin', hread pin, hread pin',
    ⟨by simp [pinConfig], fun k hk => ?_, fun h => ?_, fun un hun => ?_⟩⟩
  · simp [pinConfig, Config.object, Object.lookup, Object.ofMembers, normalizeMembers,
      KeyedList.set, KeyedList.lookup_cons_ite, hk]
  · rw [unattend_pinConfig] at h
    cases h
  · rw [unattend_pinConfig, Option.some.injEq] at hun
    subst hun
    refine ⟨_, unattend_pinConfig pin', fun k => ?_⟩
    by_cases hk : k = "LOCALADMINPASS"
    · exact .inr (hk ▸ ⟨hset h, hset h'⟩)
    · rw [lookup_pinBlock h, lookup_pinBlock h', if_neg hk, if_neg hk]
      exact .inl rfl

theorem masked_eq_iff_pins :
    marshalIndent (maskConfig (pinConfig 0)) = marshalIndent (maskConfig (pinConfig 7)) ↔
      DifferInStrings (marshalIndent (pinConfig 0)) (marshalIndent (pinConfig 7)) :=
  masked_eq_iff _ _ _ _ (maskConfigJSON_marshalIndent (shallow_pinConfig 0))
    (maskConfigJSON_marshalIndent (shallow_pinConfig 7))
    (sameTexts_pinConfig (by decide +kernel) (by decide +kernel))

/-- Two passwords that are numbers are shown, so the masked texts differ. -/
theorem pins_shown :
    ∃ raw raw' masked masked', SameTexts raw raw' ∧ maskConfigJSON raw = some masked ∧
      maskConfigJSON raw' = some masked' ∧ masked ≠ masked' := by
  have h : IsDouble 4711 := by decide +kernel
  have h' : IsDouble 4712 := by decide +kernel
  refine ⟨_, _, _, _, sameTexts_pinConfig h h',
    maskConfigJSON_marshalIndent (shallow_pinConfig _),
    maskConfigJSON_marshalIndent (shallow_pinConfig _), fun heq => ?_⟩
  have hblock := congrArg Config.unattend (marshalIndent_injective heq)
  rw [unattend_maskConfig, unattend_maskConfig, unattend_pinConfig, unattend_pinConfig,
    Option.map_some, Option.map_some, Option.some.injEq] at hblock
  have hlookup := congrArg (Object.lookup · "LOCALADMINPASS") hblock
  simp only [lookup_maskUnattend, lookup_pinBlock h, lookup_pinBlock h', if_true,
    Option.map_some, Option.some.injEq] at hlookup
  rw [maskMember_of_not_str rfl, maskMember_of_not_str rfl, Json.num.injEq] at hlookup
  exact absurd (congrArg Number.mant hlookup) (by decide)

end WinDep.Admin
