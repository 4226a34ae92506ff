/-
# Secrets in a config file

The admin never stores what the browser sent. A secret member of the unattend
block is kept from the previous file on the sentinel, dropped when blank, and
sealed otherwise. What it shows to the browser has every set secret replaced by
the sentinel. Both programs walk the block once, member by member, so both are
rewritings of the block by a function of the member.
-/

import WinDep.Config.Document
import WinDep.Config.Envelope

namespace WinDep.Admin

open Json Envelope

/-- UI marker: a secret is set but withheld. -/
def keepSentinel : String := "__KEEP__"

/-- Names of secret members end in this. -/
def secretFieldSx : String := "PASS"

/-- The upper case of a character as far as a test against ASCII letters can see: besides the
lower case letters, dotless i and long s have an ASCII upper case. -/
def toUpper (c : Char) : Char :=
  if c = 'ı' then 'I' else if c = 'ſ' then 'S' else c.toUpper

def isSecretField (name : String) : Bool :=
  secretFieldSx.toList.isSuffixOf (name.toList.map toUpper)

section

variable (P : Primitives) (masterKey : Option Key)

/-- What is stored for an incoming value; the empty string stands for nothing. -/
def resolveSecret (iv : IV) (incoming : String) (prev : Option Json) : String :=
  -- a kept value is stored as it is, sealed or not
  if incoming = keepSentinel then (prev.bind str?).getD ""
  else if incoming = "" then ""
  else ofBytes (encryptSecret P masterKey iv (toBytes incoming))

def prevUnattend (prevRaw : Bytes) : Object :=
  if prevRaw = [] then Object.empty
  else
    -- no byte-order mark is trimmed here
    match unmarshal prevRaw with
    | some p => p.unattend.getD Object.empty
    | none => Object.empty

/-- The block that the sentinel keeps from is the file's own, unless a byte-order mark hides
it. -/
theorem prevUnattend_of_unmarshal {raw : Bytes} {cfg : Config}
    (h : unmarshal (trimBOM raw) = some cfg) :
    prevUnattend raw =
      if byteOrderMark <+: raw then Object.empty else cfg.unattend.getD Object.empty := by
  have hne : raw ≠ [] := by
    rintro rfl
    cases h
  rw [prevUnattend, if_neg hne]
  split_ifs with hbom
  · rw [unmarshal_of_bom hbom]
  · rw [trimBOM_of_not_bom hbom] at h
    rw [h]

/-- The member stored for a member of the incoming block. -/
def storeMember (ivs : String → IV) (prevUn : Object) (k : String) (v : Json) : Option Json :=
  if isSecretField k then
    -- a value that is no string is resolved like a blank one
    let stored := resolveSecret P masterKey (ivs k) (v.str?.getD "") (prevUn.lookup k)
    if stored = "" then none else some (.str stored)
  else some v

theorem canonical_storeMember (ivs : String → IV) (prevUn : Object) (k : String) (v w : Json)
    (hv : Canonical v) (h : storeMember P masterKey ivs prevUn k v = some w) : Canonical w := by
  unfold storeMember at h
  split_ifs at h with hsecret
  · obtain ⟨-, rfl⟩ : _ ∧ _ := by simpa [Option.ite_none_left_eq_some] using h
    exact .str _
  · exact Option.some.inj h ▸ hv

def storeUnattend (ivs : String → IV) (prevUn un : Object) : Object :=
  un.mapMaybe (storeMember P masterKey ivs prevUn) (canonical_storeMember P masterKey ivs prevUn)

/-- The config stored for an incoming config. -/
def storeConfig (ivs : String → IV) (prevUn : Object) (cfg : Config) : Config :=
  match cfg.unattend with
  | some un => some (cfg.object.setObject "unattend" (storeUnattend P masterKey ivs prevUn un))
  | none => cfg

/-- Prepare an incoming config for storage. Each secret is sealed with a vector of its own. -/
def encryptConfigJSON (ivs : String → IV) (newRaw prevRaw : Bytes) : Option Bytes :=
  (unmarshal (trimBOM newRaw)).map fun cfg =>
    marshalIndent (storeConfig P masterKey ivs (prevUnattend prevRaw) cfg)

end

/-- The member shown for a stored member. -/
def maskMember (k : String) (v : Json) : Json :=
  match v with
  | .str s => if isSecretField k ∧ s ≠ "" then .str keepSentinel else v
  | _ => v

theorem canonical_maskMember (k : String) (v : Json) (hv : Canonical v) :
    Canonical (maskMember k v) := by
  unfold maskMember
  split
  · split_ifs
    · exact .str _
    · exact hv
  · exact hv

def maskUnattend (un : Object) : Object :=
  un.mapMaybe (fun k v => some (maskMember k v)) fun k v _ hv h =>
    Option.some.inj h ▸ canonical_maskMember k v hv

def maskConfig (cfg : Config) : Config :=
  match cfg.unattend with
  | some un => some (cfg.object.setObject "unattend" (maskUnattend un))
  | none => cfg

/-- Replace every set secret by the sentinel. -/
def maskConfigJSON (raw : Bytes) : Option Bytes :=
  (unmarshal (trimBOM raw)).map fun cfg => marshalIndent (maskConfig cfg)

/-! ## What is stored -/

variable {P : Primitives} {masterKey : Option Key} {ivs : String → IV} {iv : IV}
  {newRaw prevRaw out : Bytes} {prevUn un : Object} {cfg : Config} {k : String} {v w : Json}
  {incoming : String}

theorem prevUnattend_marshalIndent (h : cfg.Shallow) :
    prevUnattend (marshalIndent cfg) = cfg.unattend.getD Object.empty := by
  rw [prevUnattend, if_neg (marshalIndent_ne_nil cfg), unmarshal_marshalIndent h]

@[simp] theorem unattend_setObject (o : Object) :
    Config.unattend (some (o.setObject "unattend" un)) = some un := by
  simp [Config.unattend, Config.object]

/-- The stored block, whether or not the incoming config has one. -/
theorem unattend_storeConfig :
    (storeConfig P masterKey ivs prevUn cfg).unattend =
      cfg.unattend.map (storeUnattend P masterKey ivs prevUn) := by
  unfold storeConfig
  split
  · next un h => rw [h, unattend_setObject, Option.map_some]
  · next h => rw [h, Option.map_none]

theorem nesting_storeMember_le (h : storeMember P masterKey ivs prevUn k v = some w) :
    w.nesting ≤ v.nesting := by
  unfold storeMember at h
  split_ifs at h
  · obtain ⟨-, rfl⟩ : _ ∧ _ := by simpa [Option.ite_none_left_eq_some] using h
    exact Nat.zero_le _
  · rw [Option.some.inj h]

theorem nesting_maskMember_le : (maskMember k v).nesting ≤ v.nesting := by
  unfold maskMember
  split
  · split_ifs <;> exact Nat.zero_le _
  · exact le_rfl

/-- What is stored can be read back. -/
theorem shallow_storeConfig (h : cfg.Shallow) :
    (storeConfig P masterKey ivs prevUn cfg).Shallow := by
  unfold storeConfig
  split
  · next un hun =>
    exact Config.shallow_setUnattend h hun
      (Object.nesting_mapMaybe_le fun _ _ _ => nesting_storeMember_le)
  · exact h

theorem shallow_maskConfig (h : cfg.Shallow) : (maskConfig cfg).Shallow := by
  unfold maskConfig
  split
  · next un hun =>
    refine Config.shallow_setUnattend h hun (Object.nesting_mapMaybe_le fun k v w hw => ?_)
    exact Option.some.inj hw ▸ nesting_maskMember_le
  · exact h

/-- Outside the block the stored config is the incoming one. -/
theorem lookup_storeConfig (hk : k ≠ "unattend") :
    (storeConfig P masterKey ivs prevUn cfg).object.lookup k = cfg.object.lookup k := by
  unfold storeConfig
  split
  · simp [Config.object, hk]
  · rfl

@[simp] theorem lookup_storeUnattend :
    (storeUnattend P masterKey ivs prevUn un).lookup k =
      (un.lookup k).bind (storeMember P masterKey ivs prevUn k) := Object.lookup_mapMaybe

@[simp] theorem lookup_maskUnattend :
    (maskUnattend un).lookup k = (un.lookup k).map (maskMember k) := by
  rw [maskUnattend, Object.lookup_mapMaybe]
  cases un.lookup k <;> rfl

theorem encryptConfigJSON_eq_some :
    encryptConfigJSON P masterKey ivs newRaw prevRaw = some out ↔
      ∃ cfg, unmarshal (trimBOM newRaw) = some cfg ∧
        marshalIndent (storeConfig P masterKey ivs (prevUnattend prevRaw) cfg) = out :=
  Option.map_eq_some_iff

theorem storeMember_of_not_secret (hk : isSecretField k = false) :
    storeMember P masterKey ivs prevUn k v = some v := by
  simp [storeMember, hk]

/-- A secret member is stored as a non-empty string or not at all. -/
theorem storeMember_secret (hk : isSecretField k = true) :
    storeMember P masterKey ivs prevUn k v = some w ↔
      ∃ s, w = .str s ∧ s ≠ "" ∧
        resolveSecret P masterKey (ivs k) (v.str?.getD "") (prevUn.lookup k) = s := by
  simp only [storeMember, hk, if_true, Option.ite_none_left_eq_some, Option.some.injEq]
  constructor
  · rintro ⟨hne, rfl⟩
    exact ⟨_, rfl, hne, rfl⟩
  · rintro ⟨s, rfl, hne, rfl⟩
    exact ⟨hne, rfl⟩

theorem toBytes_eq_nil {s : String} : toBytes s = [] ↔ s = "" := by
  rw [← toBytes_injective.eq_iff]
  rfl

/-- What the admin seals is stored as the text of its envelope. -/
theorem resolveSecret_fresh {key : Key} (hkeep : incoming ≠ keepSentinel) (hempty : incoming ≠ "")
    (hsealed : isEncrypted (toBytes incoming) = false) (prev : Option Json) :
    resolveSecret P (some key) iv incoming prev =
      ofBytes (envelope P key iv (toBytes incoming)) := by
  simp [resolveSecret, hkeep, hempty, encryptSecret, toBytes_eq_nil, hsealed]

theorem resolveSecret_sealed (hkeep : incoming ≠ keepSentinel)
    (hsealed : isEncrypted (toBytes incoming) = true) (prev : Option Json) :
    resolveSecret P masterKey iv incoming prev = incoming := by
  cases masterKey with
  | none => simp [resolveSecret, hkeep, encryptSecret]
  | some key => simp [resolveSecret, hkeep, encryptSecret, hsealed]

theorem str?_getD_eq_keep (h : v.str?.getD "" = keepSentinel) : v = .str keepSentinel := by
  cases hstr : v.str? with
  | none =>
    rw [hstr] at h
    exact absurd h (by decide)
  | some s =>
    rw [hstr, Option.getD_some] at h
    rw [str?_eq_some.mp hstr, h]

theorem resolveSecret_keep {prev : Option Json} :
    resolveSecret P masterKey iv keepSentinel prev = (prev.bind str?).getD "" := if_pos rfl

/-- The previous block matters only for the secrets that the sentinel keeps. -/
theorem storeConfig_congr {prevUn prevUn' : Object}
    (h : ∀ un, cfg.unattend = some un → ∀ k, isSecretField k = true →
      un.lookup k = some (.str keepSentinel) →
        ((prevUn.lookup k).bind str?).getD "" = ((prevUn'.lookup k).bind str?).getD "") :
    storeConfig P masterKey ivs prevUn cfg = storeConfig P masterKey ivs prevUn' cfg := by
  unfold storeConfig
  split
  · next un hun =>
    have hblock : storeUnattend P masterKey ivs prevUn un =
        storeUnattend P masterKey ivs prevUn' un := by
      ext1 k
      rw [lookup_storeUnattend, lookup_storeUnattend]
      cases hv : un.lookup k with
      | none => rfl
      | some v =>
        rw [Option.bind_some, Option.bind_some, storeMember, storeMember]
        -- only the sentinel looks at the previous value
        by_cases hsecret : isSecretField k = true
        · rw [if_pos hsecret, if_pos hsecret, resolveSecret, resolveSecret]
          by_cases hkeep : v.str?.getD "" = keepSentinel
          · rw [str?_getD_eq_keep hkeep] at hv
            rw [h un hun k hsecret hv]
          · rw [if_neg hkeep, if_neg hkeep]
        · rw [if_neg hsecret, if_neg hsecret]
    rw [hblock]
  · rfl

/-! ## What the sentinel keeps -/

/-- The sentinel stands for no secret that the previous config has. -/
def KeepsNothing (newRaw prevRaw : Bytes) : Prop :=
  ∀ cfg un, unmarshal (trimBOM newRaw) = some cfg → cfg.unattend = some un → ∀ k,
    isSecretField k = true → un.lookup k = some (.str keepSentinel) →
      (((prevUnattend prevRaw).lookup k).bind str?).getD "" = ""

/-- A secret that the sentinel keeps is stored as it was. -/
theorem lookup_storeUnattend_keep (hk : isSecretField k = true)
    (h : un.lookup k = some (.str keepSentinel)) :
    (((storeUnattend P masterKey ivs prevUn un).lookup k).bind str?).getD "" =
      ((prevUn.lookup k).bind str?).getD "" := by
  rw [lookup_storeUnattend, h, Option.bind_some, storeMember, if_pos hk]
  change (((if resolveSecret P masterKey (ivs k) keepSentinel (prevUn.lookup k) = "" then none
    else some (str (resolveSecret P masterKey (ivs k) keepSentinel (prevUn.lookup k)))) :
      Option Json).bind str?).getD "" = _
  rw [resolveSecret_keep]
  split_ifs with hempty
  · exact hempty.symm
  · rfl

/-- A config is stored as if it were the first exactly if the sentinel keeps nothing. -/
theorem encryptConfigJSON_eq_fresh_iff :
    encryptConfigJSON P masterKey ivs newRaw prevRaw =
      encryptConfigJSON P masterKey ivs newRaw [] ↔ KeepsNothing newRaw prevRaw := by
  constructor
  · intro h cfg un hcfg hun k hk hkeep
    rw [encryptConfigJSON, encryptConfigJSON, hcfg, Option.map_some, Option.map_some,
      Option.some.injEq] at h
    have hblock := congrArg Config.unattend (marshalIndent_injective h)
    rw [unattend_storeConfig, unattend_storeConfig, hun, Option.map_some, Option.map_some,
      Option.some.injEq] at hblock
    have hkept (prevUn : Object) :
        (((storeUnattend P masterKey ivs prevUn un).lookup k).bind str?).getD "" =
          ((prevUn.lookup k).bind str?).getD "" := lookup_storeUnattend_keep hk hkeep
    rw [← hkept, hblock, hkept]
    rfl
  · intro h
    rw [encryptConfigJSON, encryptConfigJSON]
    apply Option.map_congr
    intro cfg hcfg
    exact congrArg marshalIndent
      (storeConfig_congr fun un hun k hk hkeep => h cfg un hcfg hun k hk hkeep)

/-- What is stored as the first config has none of the secrets that the sentinel should keep. -/
theorem keepsNothing_of_fresh (h : encryptConfigJSON P masterKey ivs newRaw [] = some prevRaw) :
    KeepsNothing newRaw prevRaw := by
  obtain ⟨cfg, hcfg, rfl⟩ := encryptConfigJSON_eq_some.mp h
  intro cfg' un hcfg' hun k hk hkeep
  rw [hcfg, Option.some.injEq] at hcfg'
  subst hcfg'
  rw [prevUnattend_marshalIndent (shallow_storeConfig (shallow_of_unmarshal hcfg)),
    unattend_storeConfig, hun]
  exact lookup_storeUnattend_keep hk hkeep

end WinDep.Admin
