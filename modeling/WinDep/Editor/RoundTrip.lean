/-
# Saving an untouched form

A machine's config is opened in the editor and saved without a change. What the
machine gets afterwards is the same exactly under the condition stated here. The
form writes members the config left to the default (the mode and the wipe
confirmation), drops blank ones, trims strings, cannot hold a numeric disk, and
drops the domain members of a config that does not join a domain; the server
cannot keep the secrets of a file that begins with a byte-order mark.
-/

import WinDep.Config.Resolve
import WinDep.Editor.Form

namespace WinDep.Editor

open Json Object Admin Api

/-! ## Documented configs -/

def IsString (v : Json) : Prop := ∃ s, v = .str s

def IsNonemptyString (v : Json) : Prop := ∃ s, v = .str s ∧ s ≠ ""

theorem IsNonemptyString.isString {v : Json} (h : IsNonemptyString v) : IsString v :=
  h.imp fun _ => And.left

/-- The members that the form holds as text and trims. -/
def plainFields : List String := ["targetDisk", "computerName", "imageUrl"]

/-- The members of the unattend block in the documented schema. -/
def unattendFields : List String :=
  ["TIMEZONE", "LOCALADMINUSER", "LOCALADMINPASS", "JOINDOMAIN", "DOMAINOU", "DOMAINUSER",
    "DOMAINPASS"]

/-- The members that are written only for a machine that joins a domain. -/
def domainFields : List String := ["JOINDOMAIN", "DOMAINOU", "DOMAINUSER", "DOMAINPASS"]

/-- The config has members of the documented schema only, each of its documented type. The
strings of the block are not empty. -/
structure Documented (c : Object) : Prop where
  names : ∀ k v, c.lookup k = some v →
    k ∈ ["mode", "targetDisk", "computerName", "imageUrl", "confirmWipe", "unattend"]
  mode : ∀ v, c.lookup "mode" = some v → IsString v
  targetDisk : ∀ v, c.lookup "targetDisk" = some v → IsString v ∨ ∃ n, v = .num n ∧ n.IsInteger
  computerName : ∀ v, c.lookup "computerName" = some v → IsString v
  imageUrl : ∀ v, c.lookup "imageUrl" = some v → IsString v
  confirmWipe : ∀ v, c.lookup "confirmWipe" = some v → ∃ b, v = .bool b
  unattend : ∀ v, c.lookup "unattend" = some v → ∃ un : Object, v = un.toJson ∧
    ∀ k w, un.lookup k = some w → k ∈ unattendFields ∧ IsNonemptyString w

/-- The block of a config, empty if there is none. -/
def blockOf (c : Object) : Object := (Config.unattend (some c)).getD Object.empty

/-! ## The condition -/

/-- The default has the same string as one that is trimmed away; any other is left alone. -/
def SurvivesTrim (s : String) (inherited : Option Json) : Prop :=
  if trimString s = "" then inherited = some (.str s) else trimString s = s

/-- A member of the block survives: a domain member needs `JOINDOMAIN`, a secret a file without
a byte-order mark, or else the default has the same string; other members are trimmed. -/
def Survives (un : Object) (stored : Bytes) (k s : String) (inherited : Option Json) : Prop :=
  if k ∈ domainFields ∧ un.lookup "JOINDOMAIN" = none then inherited = some (.str s)
  else if isSecretField k then ¬ byteOrderMark <+: stored ∨ inherited = some (.str s)
  else SurvivesTrim s inherited

/-- Saving the untouched form of `c`, stored as `stored`, changes nothing over the default `d`. -/
structure Unchanged (d c : Object) (stored : Bytes) : Prop where
  mode : c.lookup "mode" = none → d.lookup "mode" = some (.str "zerotouch")
  blankMode : c.lookup "mode" = some (.str "") → d.lookup "mode" = some (.str "")
  confirmWipe : c.lookup "confirmWipe" = none → d.lookup "confirmWipe" = some (.bool false)
  plain : ∀ k ∈ plainFields, ∀ v, c.lookup k = some v →
    ∃ s, v = .str s ∧ SurvivesTrim s (d.lookup k)
  unattend : ∀ k s, (blockOf c).lookup k = some (.str s) →
    Survives (blockOf c) stored k s ((blockOf d).lookup k)

/-! ## The form of a documented config -/

variable {P : Primitives} {masterKey : Option Key} {ivs : String → IV} {serial : String}
  {stored : Bytes} {c d un : Object} {k s : String} {v : Json} {w inherited : Option Json}

/-- What the form writes for a stored string. -/
def kept (v : Option Json) : Option Json :=
  match v with
  | some (.str s) => if trimString s ≠ "" then some (.str (trimString s)) else none
  | _ => none

/-- What the form writes for a stored secret. -/
def keptSecret (v : Option Json) : Option Json := v.map fun _ => .str KEEP

/-- What the form writes for a stored mode. -/
def keptMode (v : Option Json) : Option Json :=
  match v with
  | none => some (.str "zerotouch")
  | some v => if truthy v then some v else none

theorem plainOut_orElse (h : ∀ v, w = some v → IsString v) :
    plainOut (orElse w (.str "")) = some (kept w) := by
  cases w with
  | none => rfl
  | some v =>
    obtain ⟨s, rfl⟩ := h v rfl
    rfl

theorem secretOut_masked (h : ∀ v, w = some v → IsNonemptyString v) (hk : isSecretField k = true) :
    secretOut
        (if isKeep (w.map (maskMember k)) then .str ""
          else orElse (w.map (maskMember k)) (.str ""))
        (isKeep (w.map (maskMember k))) = keptSecret w := by
  cases w with
  | none => rfl
  | some v =>
    obtain ⟨s, rfl, hs⟩ := h v rfl
    have hmask : maskMember k (.str s) = .str KEEP := by
      simp only [maskMember, hk, hs, ne_eq, not_false_eq_true, and_self, if_true]
      rfl
    rw [Option.map_some, hmask]
    rfl

/-- The entries of the block that is sent for a stored block. -/
def sentEntries (un : Object) : List (String × Option Json) :=
  [("TIMEZONE", kept (un.lookup "TIMEZONE")),
    ("LOCALADMINUSER", kept (un.lookup "LOCALADMINUSER")),
    ("LOCALADMINPASS", keptSecret (un.lookup "LOCALADMINPASS"))] ++
  if (un.lookup "JOINDOMAIN").isSome then
    [("JOINDOMAIN", kept (un.lookup "JOINDOMAIN")), ("DOMAINOU", kept (un.lookup "DOMAINOU")),
      ("DOMAINUSER", kept (un.lookup "DOMAINUSER")),
      ("DOMAINPASS", keptSecret (un.lookup "DOMAINPASS"))]
  else []

/-- The entries of the config that is sent. -/
def sentConfig (c : Object) : List (String × Option Json) :=
  [("mode", keptMode (c.lookup "mode")),
    ("targetDisk", kept (c.lookup "targetDisk")),
    ("computerName", kept (c.lookup "computerName")),
    ("imageUrl", kept (c.lookup "imageUrl")),
    ("confirmWipe", some ((c.lookup "confirmWipe").getD (.bool false))),
    ("unattend", if (sparse (sentEntries (blockOf c))).length ≠ 0 then
      some (.obj (sparse (sentEntries (blockOf c)))) else none)]

theorem blockOf_lookup (hc : Documented c) (h : (blockOf c).lookup k = some v) :
    k ∈ unattendFields ∧ IsNonemptyString v := by
  unfold blockOf at h
  cases hun : Config.unattend (some c) with
  | none => simp [hun] at h
  | some un =>
    rw [hun, Option.getD_some] at h
    rw [Config.unattend, object?_eq_some] at hun
    obtain ⟨un', heq, hmembers⟩ := hc.unattend _ hun
    obtain rfl := toJson_injective heq
    exact hmembers k v h

/-- The masked block as the browser sees it. -/
theorem get?_maskConfig (hc : Documented c) :
    (orElse ((maskConfig (some c)).toJson.get? "unattend") (.obj [])).get? k =
      ((blockOf c).lookup k).map (maskMember k) := by
  unfold maskConfig blockOf
  cases hun : Config.unattend (some c) with
  | none =>
    -- a documented block is an object, so a missing block is a missing member
    have hnone : c.lookup "unattend" = none := by
      cases hv : c.lookup "unattend" with
      | none => rfl
      | some v =>
        obtain ⟨un, rfl, -⟩ := hc.unattend v hv
        rw [Config.unattend, object?_eq_none] at hun
        exact absurd hv (hun un)
    have hget : (Config.toJson (some c)).get? "unattend" = none := hnone
    simp [hget, orElse]
  | some un =>
    have hget : (Config.toJson (some (c.setObject "unattend" (maskUnattend un)))).get? "unattend" =
        some (maskUnattend un).toJson :=
      lookup_setObject.trans (if_pos rfl)
    have hlookup := @lookup_maskUnattend un k
    exact (congrArg (fun v => (orElse v (.obj [])).get? k) hget).trans hlookup

theorem get?_maskConfig_of_ne (hk : k ≠ "unattend") :
    (maskConfig (some c)).toJson.get? k = c.lookup k := by
  unfold maskConfig
  split
  · exact lookup_setObject.trans (if_neg hk)
  · rfl

theorem maskMember_of_not_secret (hk : isSecretField k = false) : maskMember k v = v := by
  unfold maskMember
  split <;> simp [hk]

theorem truthy_orElse (h : ∀ v, w = some v → IsNonemptyString v) :
    truthy (orElse w .null) = w.isSome := by
  cases w with
  | none => rfl
  | some v =>
    obtain ⟨s, rfl, hs⟩ := h v rfl
    simp [orElse, truthy, hs]

/-- The entries of the block, read off the masked block. -/
theorem unattendEntries_masked {f : Fields}
    (h : ∀ k v, un.lookup k = some v → IsString v)
    (htimezone : f.TIMEZONE = orElse (un.lookup "TIMEZONE") (.str ""))
    (huser : f.LOCALADMINUSER = orElse (un.lookup "LOCALADMINUSER") (.str ""))
    (hpass : secretOut f.LOCALADMINPASS f.localAdminPassSet =
      keptSecret (un.lookup "LOCALADMINPASS"))
    (hjoin : f.joinDomain = (un.lookup "JOINDOMAIN").isSome)
    (hdomain : f.JOINDOMAIN = orElse (un.lookup "JOINDOMAIN") (.str ""))
    (hou : f.DOMAINOU = orElse (un.lookup "DOMAINOU") (.str ""))
    (hdomainUser : f.DOMAINUSER = orElse (un.lookup "DOMAINUSER") (.str ""))
    (hdomainPass : secretOut f.DOMAINPASS f.domainPassSet =
      keptSecret (un.lookup "DOMAINPASS")) :
    unattendEntries f = some (sentEntries un) := by
  have hplain (k : String) := plainOut_orElse (h k)
  simp only [unattendEntries, htimezone, huser, hpass, hjoin, hdomain, hou, hdomainUser,
    hdomainPass, hplain, Option.bind_eq_bind, Option.bind_some, sentEntries]
  split_ifs <;> rfl

/-- The form of a documented config sends the entries above, unless the disk is a number. -/
theorem toConfig_fromConfig (hc : Documented c)
    (hdisk : ∀ v, c.lookup "targetDisk" = some v → IsString v) :
    (fromConfig serial (maskConfig (some c)).toJson).bind toConfig =
      some (.obj (sparse (sentConfig c))) := by
  obtain ⟨ms, hms⟩ : ∃ ms, (maskConfig (some c)).toJson = .obj ms := by
    unfold maskConfig
    split <;> exact ⟨_, rfl⟩
  have hget (k : String) (hk : k ≠ "unattend") : (Json.obj ms).get? k = c.lookup k :=
    hms ▸ get?_maskConfig_of_ne hk
  have hblock (k : String) : (orElse ((Json.obj ms).get? "unattend") (.obj [])).get? k =
      ((blockOf c).lookup k).map (maskMember k) := hms ▸ get?_maskConfig hc
  have hplain (k : String) (hk : isSecretField k = false) :
      (orElse ((Json.obj ms).get? "unattend") (.obj [])).get? k = (blockOf c).lookup k := by
    rw [hblock, show maskMember k = id from funext fun v => maskMember_of_not_secret hk]
    exact Option.map_id_apply
  have hstring (k : String) (v : Json) (hv : (blockOf c).lookup k = some v) :
      IsNonemptyString v := (blockOf_lookup hc hv).2
  rw [hms, fromConfig, Option.bind_some, toConfig, buildUnattend,
    @unattendEntries_masked (blockOf c) _ fun k v hv => (hstring k v hv).isString]
  · -- the members outside the block
    have hmode : (if truthy (orElse (c.lookup "mode") (.str "zerotouch")) then
        some (orElse (c.lookup "mode") (.str "zerotouch")) else none) =
        keptMode (c.lookup "mode") := by
      cases hv : c.lookup "mode" with
      | none => rfl
      | some v =>
        obtain ⟨s, rfl⟩ := hc.mode v hv
        rfl
    have hwipe : Json.bool (truthy (orElse (c.lookup "confirmWipe") .null)) =
        (c.lookup "confirmWipe").getD (.bool false) := by
      cases hv : c.lookup "confirmWipe" with
      | none => rfl
      | some v =>
        obtain ⟨b, rfl⟩ := hc.confirmWipe v hv
        rfl
    simp only [Option.map_some, Option.bind_eq_bind, Option.bind_some,
      hget _ (by decide : "mode" ≠ _),
      hget _ (by decide : "targetDisk" ≠ _), hget _ (by decide : "computerName" ≠ _),
      hget _ (by decide : "imageUrl" ≠ _), hget _ (by decide : "confirmWipe" ≠ _),
      plainOut_orElse hdisk, plainOut_orElse hc.computerName, plainOut_orElse hc.imageUrl,
      hmode, hwipe]
    rfl
  -- the members of the block, in the order of the form
  · simp only [hplain _ (by decide : isSecretField "TIMEZONE" = false)]
  · simp only [hplain _ (by decide : isSecretField "LOCALADMINUSER" = false)]
  · simp only [hblock]
    exact secretOut_masked (hstring _) (by decide)
  · simp only [hplain _ (by decide : isSecretField "JOINDOMAIN" = false)]
    exact truthy_orElse (hstring _)
  · simp only [hplain _ (by decide : isSecretField "JOINDOMAIN" = false)]
  · simp only [hplain _ (by decide : isSecretField "DOMAINOU" = false)]
  · simp only [hplain _ (by decide : isSecretField "DOMAINUSER" = false)]
  · simp only [hblock]
    exact secretOut_masked (hstring _) (by decide)
  · rintro ⟨⟩

/-! ## What is stored -/

theorem unmarshal_stringify {ms : Members} (h : Within maxNestingDepth (.obj ms)) :
    unmarshal (trimBOM (stringify (.obj ms))) = some (some (ofMembers ms)) := by
  obtain ⟨cs, hprint⟩ := printValue_obj_head false 0 ms
  have htrim : trimBOM (stringify (.obj ms)) = stringify (.obj ms) := by
    rw [stringify, hprint, trimBOM_encode_brace]
  rw [htrim, stringify, unmarshal_printValue h]

theorem within_kept {d : ℕ} (h : kept w = some v) : Within d v := by
  unfold kept at h
  split at h
  · split_ifs at h
    exact Option.some.inj h ▸ within_str d _
  · cases h

theorem within_keptSecret {d : ℕ} (h : keptSecret w = some v) : Within d v := by
  obtain ⟨-, -, rfl⟩ := Option.map_eq_some_iff.mp h
  exact within_str d _

theorem within_sentEntries (un : Object) : Within 1 (.obj (sparse (sentEntries un))) := by
  refine within_sparse fun e he v hv => ?_
  unfold sentEntries at he
  split_ifs at he
  · simp only [List.cons_append, List.nil_append, List.mem_cons, List.not_mem_nil, or_false] at he
    rcases he with rfl | rfl | rfl | rfl | rfl | rfl | rfl
    · exact within_kept hv
    · exact within_kept hv
    · exact within_keptSecret hv
    · exact within_kept hv
    · exact within_kept hv
    · exact within_kept hv
    · exact within_keptSecret hv
  · simp only [List.append_nil, List.mem_cons, List.not_mem_nil, or_false] at he
    rcases he with rfl | rfl | rfl
    · exact within_kept hv
    · exact within_kept hv
    · exact within_keptSecret hv

/-- The server decodes what the form of a documented config sends. -/
theorem within_sentConfig (hc : Documented c) :
    Within maxNestingDepth (.obj (sparse (sentConfig c))) := by
  refine (@within_sparse 1 _ fun e he v hv => ?_).mono (by decide)
  simp only [sentConfig, List.mem_cons, List.not_mem_nil, or_false] at he
  rcases he with rfl | rfl | rfl | rfl | rfl | rfl
  · -- the mode, a string of the config or the form's own
    simp only [keptMode] at hv
    split at hv
    · exact Option.some.inj hv ▸ within_str 1 _
    · next hmode =>
      obtain ⟨s, rfl⟩ := hc.mode _ hmode
      split_ifs at hv
      exact Option.some.inj hv ▸ within_str 1 s
  · exact within_kept hv
  · exact within_kept hv
  · exact within_kept hv
  · obtain rfl := Option.some.inj hv
    cases hwipe : c.lookup "confirmWipe" with
    | none => exact within_bool 1 false
    | some w =>
      obtain ⟨b, rfl⟩ := hc.confirmWipe w hwipe
      exact within_bool 1 b
  · split_ifs at hv
    exact Option.some.inj hv ▸ within_sentEntries (blockOf c)

/-- What the server stores for the untouched form. -/
def storedConfig (P : Primitives) (masterKey : Option Key) (ivs : String → IV) (stored : Bytes)
    (c : Object) : Config :=
  storeConfig P masterKey ivs (prevUnattend stored) (some (ofMembers (sparse (sentConfig c))))

theorem shallow_storedConfig (hc : Documented c) :
    (storedConfig P masterKey ivs stored c).Shallow := by
  refine shallow_storeConfig ?_
  exact (nesting_normalize_le (.obj _)).trans (within_sentConfig hc).nesting

theorem saveUntouched_eq (h : unmarshal (trimBOM stored) = some (some c)) (hc : Documented c)
    (hdisk : ∀ v, c.lookup "targetDisk" = some v → IsString v) :
    saveUntouched P masterKey ivs serial stored =
      some (marshalIndent (storedConfig P masterKey ivs stored c)) := by
  have hform := @toConfig_fromConfig serial c hc hdisk
  obtain ⟨f, hf, hsent⟩ := Option.bind_eq_some_iff.mp hform
  simp only [saveUntouched, maskConfigJSON, h, Option.map_some, Option.bind_eq_bind,
    Option.bind_some, marshalIndent, Utf8.decode_encode, parse_printValue, hf, hsent,
    encryptConfigJSON, unmarshal_stringify (within_sentConfig hc)]
  rfl

/-- A numeric disk has no `trim`, so the save fails. -/
theorem saveUntouched_number {n : Number} (h : unmarshal (trimBOM stored) = some (some c))
    (hdisk : c.lookup "targetDisk" = some (.num n)) :
    saveUntouched P masterKey ivs serial stored = none := by
  have hget : (maskConfig (some c)).toJson.get? "targetDisk" = some (.num n) :=
    (get?_maskConfig_of_ne (by decide)).trans hdisk
  simp only [saveUntouched, maskConfigJSON, h, Option.map_some, Option.bind_eq_bind,
    Option.bind_some, marshalIndent, Utf8.decode_encode, parse_printValue]
  cases hf : fromConfig serial (maskConfig (some c)).toJson with
  | none => rfl
  | some f =>
    have hfield : f.targetDisk = .num n := by
      unfold fromConfig at hf
      split at hf
      · simp at hf
      · obtain rfl := Option.some.inj hf
        simp [hget, orElse]
    have hsent : toConfig f = none := by
      rw [toConfig]
      cases buildUnattend f <;> simp [hfield, plainOut, trim]
    rw [Option.bind_some, hsent, Option.bind_none]

theorem sentEntries_nodup : ((sentEntries un).map Prod.fst).Nodup := by
  unfold sentEntries
  split_ifs <;> simp

theorem isSecretField_unattendFields : ∀ k ∈ unattendFields,
    isSecretField k = (k == "LOCALADMINPASS" || k == "DOMAINPASS") := by
  decide

/-- What is sent for a documented member of the block. -/
theorem lookup_sentEntries (hk : k ∈ unattendFields) :
    ((sentEntries un).lookup k).join =
      if k ∈ domainFields ∧ un.lookup "JOINDOMAIN" = none then none
      else if isSecretField k then keptSecret (un.lookup k) else kept (un.lookup k) := by
  rw [isSecretField_unattendFields k hk]
  simp only [unattendFields, List.mem_cons, List.not_mem_nil, or_false] at hk
  cases hjoin : un.lookup "JOINDOMAIN" with
  | none => rcases hk with rfl | rfl | rfl | rfl | rfl | rfl | rfl <;>
      simp [sentEntries, domainFields, hjoin, List.lookup_cons]
  | some v => rcases hk with rfl | rfl | rfl | rfl | rfl | rfl | rfl <;>
      simp [sentEntries, domainFields, hjoin, List.lookup_cons]

theorem lookup_sentEntries_of_not_mem (hk : k ∉ unattendFields) :
    ((sentEntries un).lookup k).join = none := by
  have hkeys : (sentEntries un).lookup k = none := by
    simp only [unattendFields, List.mem_cons, List.not_mem_nil, or_false, not_or] at hk
    rw [List.lookup_eq_none_iff]
    unfold sentEntries
    split_ifs <;> simp [hk]
  rw [hkeys, Option.join_none]

theorem unattend_sentConfig :
    (Config.unattend (some (ofMembers (sparse (sentConfig c))))).getD Object.empty =
      ofMembers (sparse (sentEntries (blockOf c))) := by
  have hlookup : (ofMembers (sparse (sentConfig c))).lookup "unattend" =
      if (sparse (sentEntries (blockOf c))).length ≠ 0 then
        some (ofMembers (sparse (sentEntries (blockOf c)))).toJson else none := by
    rw [lookup_ofMembers_sparse (by simp [sentConfig])]
    simp only [sentConfig, List.lookup_cons]
    split_ifs <;> simp [toJson, ofMembers, Json.normalize]
  -- an empty block is not sent, and reads as empty
  by_cases hlen : (sparse (sentEntries (blockOf c))).length ≠ 0
  · rw [if_pos hlen] at hlookup
    have hun : Config.unattend (some (ofMembers (sparse (sentConfig c)))) =
        some (ofMembers (sparse (sentEntries (blockOf c)))) := object?_eq_some.mpr hlookup
    rw [hun, Option.getD_some]
  · rw [if_neg hlen] at hlookup
    have hnone : Config.unattend (some (ofMembers (sparse (sentConfig c)))) = none := by
      rw [Config.unattend, object?_eq_none]
      intro b hb
      change (ofMembers (sparse (sentConfig c))).lookup "unattend" = _ at hb
      simp [hlookup] at hb
    rw [hnone, List.length_eq_zero_iff.mp (not_not.mp hlen)]
    rfl

/-- A member of the stored block: what was sent, with the sentinel resolved. -/
theorem lookup_storedConfig_unattend :
    ((storedConfig P masterKey ivs stored c).unattend.getD Object.empty).lookup k =
      ((((sentEntries (blockOf c)).lookup k).join).map Json.normalize).bind
        (storeMember P masterKey ivs (prevUnattend stored) k) := by
  rw [← lookup_ofMembers_sparse sentEntries_nodup, ← unattend_sentConfig, storedConfig,
    unattend_storeConfig]
  cases Config.unattend (some (ofMembers (sparse (sentConfig c)))) with
  | none => rfl
  | some un => exact lookup_storeUnattend

theorem lookup_storedConfig (hk : k ≠ "unattend") :
    (storedConfig P masterKey ivs stored c).object.lookup k =
      ((sentConfig c).lookup k).join.map Json.normalize := by
  rw [storedConfig, lookup_storeConfig hk, ← lookup_ofMembers_sparse (by simp [sentConfig])]
  rfl

/-! ## What survives -/

theorem kept_or_iff :
    ((kept (some (.str s))).map Json.normalize).or inherited = some (.str s) ↔
      SurvivesTrim s inherited := by
  unfold kept SurvivesTrim
  by_cases hblank : trimString s = ""
  · simp [hblank]
  · simp [hblank, Json.normalize]

theorem survives_iff (h : unmarshal (trimBOM stored) = some (some c)) (hk : k ∈ unattendFields)
    (hmember : (blockOf c).lookup k = some (.str s)) (hs : s ≠ "") :
    (((storedConfig P masterKey ivs stored c).unattend.getD Object.empty).lookup k).or inherited =
        some (.str s) ↔
      Survives (blockOf c) stored k s inherited := by
  rw [lookup_storedConfig_unattend, lookup_sentEntries hk, Survives, hmember]
  split_ifs with hgated hsecret
  · -- not sent, so the default shows through
    simp
  · -- the sentinel takes the previous value, if the server could read it
    have hkeep : (keptSecret (some (.str s))).map Json.normalize = some (.str KEEP) := by
      simp [keptSecret, Json.normalize]
    have hstore : storeMember P masterKey ivs (prevUnattend stored) k (.str KEEP) =
        if byteOrderMark <+: stored then none else some (.str s) := by
      rw [storeMember, if_pos hsecret, prevUnattend_of_unmarshal h, ← blockOf]
      split_ifs <;> simp [resolveSecret, KEEP, keepSentinel, hmember, hs]
    rw [hkeep, Option.bind_some, hstore]
    split_ifs with hbom <;> simp [hbom]
  · -- sent trimmed, and stored as it is sent
    have hstore : storeMember P masterKey ivs (prevUnattend stored) k = some :=
      funext fun v => storeMember_of_not_secret (by simpa using hsecret)
    rw [hstore, Option.bind_fun_some]
    exact kept_or_iff

theorem unattend_iff (h : unmarshal (trimBOM stored) = some (some c)) (hc : Documented c) :
    (∀ k, (mergedUnattend (some d) (storedConfig P masterKey ivs stored c)).lookup k =
        (mergedUnattend (some d) (some c)).lookup k) ↔
      ∀ k s, (blockOf c).lookup k = some (.str s) →
        Survives (blockOf c) stored k s ((blockOf d).lookup k) := by
  simp only [mergedUnattend, lookup_overlay]
  apply forall_congr'
  intro k
  change _ = ((blockOf c).lookup k).or ((blockOf d).lookup k) ↔ _
  cases hmember : (blockOf c).lookup k with
  | none =>
    -- what the config does not have is not sent, and is inherited as before
    refine iff_of_true ?_ (by simp)
    have hnone : ((sentEntries (blockOf c)).lookup k).join = none := by
      by_cases hk : k ∈ unattendFields
      · rw [lookup_sentEntries hk, hmember]
        split_ifs <;> rfl
      · exact lookup_sentEntries_of_not_mem hk
    rw [lookup_storedConfig_unattend, hnone]
    rfl
  | some v =>
    obtain ⟨hk, s, rfl, hs⟩ := blockOf_lookup hc hmember
    rw [Option.some_or]
    refine (survives_iff h hk hmember hs).trans ⟨?_, fun hall => hall s rfl⟩
    rintro hsurvives _ ⟨⟩
    exact hsurvives

theorem lookup_storedConfig_mode :
    (storedConfig P masterKey ivs stored c).object.lookup "mode" =
      (keptMode (c.lookup "mode")).map Json.normalize :=
  lookup_storedConfig (by decide)

/-- The wipe confirmation is always sent, the stored one or `false`. -/
theorem lookup_storedConfig_confirmWipe (hc : Documented c) :
    (storedConfig P masterKey ivs stored c).object.lookup "confirmWipe" =
      some ((c.lookup "confirmWipe").getD (.bool false)) := by
  have hlookup : (sentConfig c).lookup "confirmWipe" =
      some (some ((c.lookup "confirmWipe").getD (.bool false))) := rfl
  rw [lookup_storedConfig (by decide), hlookup, Option.join_some, Option.map_some]
  cases hv : c.lookup "confirmWipe" with
  | none => rfl
  | some v =>
    obtain ⟨b, rfl⟩ := hc.confirmWipe v hv
    rfl

theorem lookup_storedConfig_plain (hk : k ∈ plainFields) :
    (storedConfig P masterKey ivs stored c).object.lookup k =
      (kept (c.lookup k)).map Json.normalize := by
  simp only [plainFields, List.mem_cons, List.not_mem_nil, or_false] at hk
  rcases hk with rfl | rfl | rfl <;> exact lookup_storedConfig (by decide)

theorem lookup_storedConfig_other
    (hk : k ∉ ["mode", "targetDisk", "computerName", "imageUrl", "confirmWipe", "unattend"]) :
    (storedConfig P masterKey ivs stored c).object.lookup k = none := by
  simp only [List.mem_cons, List.not_mem_nil, or_false, not_or] at hk
  have hlookup : (sentConfig c).lookup k = none := by
    rw [List.lookup_eq_none_iff]
    simp [sentConfig, hk]
  rw [lookup_storedConfig hk.2.2.2.2.2, hlookup, Option.join_none, Option.map_none]

theorem some_getD_or {a : Json} : (some (w.getD a)).or inherited = w.or inherited ↔
    (w = none → inherited = some a) := by
  cases w <;> simp [eq_comm]

theorem mode_iff (hstring : ∀ v, w = some v → IsString v) :
    ((keptMode w).map Json.normalize).or inherited = w.or inherited ↔
      (w = none → inherited = some (.str "zerotouch")) ∧
        (w = some (.str "") → inherited = some (.str "")) := by
  cases w with
  | none => simp [keptMode, Json.normalize, eq_comm]
  | some v =>
    obtain ⟨s, rfl⟩ := hstring v rfl
    by_cases hs : s = ""
    · simp [keptMode, truthy, hs]
    · simp [keptMode, truthy, hs, Json.normalize]

theorem plain_iff (hstring : ∀ v, w = some v → IsString v) :
    ((kept w).map Json.normalize).or inherited = w.or inherited ↔
      ∀ v, w = some v → ∃ s, v = .str s ∧ SurvivesTrim s inherited := by
  cases w with
  | none => exact iff_of_true rfl (by simp)
  | some v =>
    obtain ⟨s, rfl⟩ := hstring v rfl
    rw [Option.some_or, kept_or_iff]
    simp

/-- The members outside the block survive exactly under their part of the condition. -/
theorem members_iff (hc : Documented c)
    (hdisk : ∀ v, c.lookup "targetDisk" = some v → IsString v) :
    (∀ k, k ≠ "unattend" →
        ((storedConfig P masterKey ivs stored c).object.lookup k).or (d.lookup k) =
          (c.lookup k).or (d.lookup k)) ↔
      ((c.lookup "mode" = none → d.lookup "mode" = some (.str "zerotouch")) ∧
        (c.lookup "mode" = some (.str "") → d.lookup "mode" = some (.str ""))) ∧
      (c.lookup "confirmWipe" = none → d.lookup "confirmWipe" = some (.bool false)) ∧
      ∀ k ∈ plainFields, ∀ v, c.lookup k = some v →
        ∃ s, v = .str s ∧ SurvivesTrim s (d.lookup k) := by
  have hstring : ∀ k ∈ plainFields, ∀ v, c.lookup k = some v → IsString v := by
    simp only [plainFields, List.forall_mem_cons, List.not_mem_nil, false_imp_iff, implies_true,
      and_true]
    exact ⟨hdisk, hc.computerName, hc.imageUrl⟩
  constructor
  · intro h
    refine ⟨?_, ?_, fun k hk => ?_⟩
    · rw [← mode_iff hc.mode, ← lookup_storedConfig_mode]
      exact h "mode" (by decide)
    · rw [← some_getD_or, ← lookup_storedConfig_confirmWipe hc]
      exact h "confirmWipe" (by decide)
    · rw [← plain_iff (hstring k hk), ← lookup_storedConfig_plain hk]
      exact h k (by rintro rfl; simp [plainFields] at hk)
  · rintro ⟨hmode, hwipe, hplain⟩ k hk
    by_cases hmem : k ∈ ["mode", "targetDisk", "computerName", "imageUrl", "confirmWipe",
        "unattend"]
    · have hcases : k = "mode" ∨ k = "confirmWipe" ∨ k ∈ plainFields := by
        simp only [plainFields, List.mem_cons, List.not_mem_nil, or_false] at hmem ⊢
        tauto
      rcases hcases with rfl | rfl | hk'
      · rw [lookup_storedConfig_mode]
        exact (mode_iff hc.mode).mpr hmode
      · rw [lookup_storedConfig_confirmWipe hc]
        exact some_getD_or.mpr hwipe
      · rw [lookup_storedConfig_plain hk']
        exact (plain_iff (hstring k hk')).mpr (hplain k hk')
    · -- no other member is documented, and none is sent
      have hnone : c.lookup k = none := by
        by_contra hne
        obtain ⟨v, hv⟩ := Option.ne_none_iff_exists'.mp hne
        exact hmem (hc.names k v hv)
      rw [lookup_storedConfig_other hmem, hnone]

theorem mergeConfig_storedConfig_iff (h : unmarshal (trimBOM stored) = some (some c))
    (hc : Documented c) (hdisk : ∀ v, c.lookup "targetDisk" = some v → IsString v) :
    mergeConfig (some d) (storedConfig P masterKey ivs stored c) =
        mergeConfig (some d) (some c) ↔
      Unchanged d c stored := by
  rw [mergeConfig_eq_iff, unattend_iff h hc]
  constructor
  · rintro ⟨hmembers, hblock⟩
    obtain ⟨⟨hmode, hblank⟩, hwipe, hplain⟩ := (members_iff hc hdisk).mp hmembers
    exact ⟨hmode, hblank, hwipe, hplain, hblock⟩
  · intro hunchanged
    refine ⟨(members_iff hc hdisk).mpr ⟨⟨hunchanged.mode, hunchanged.blankMode⟩, ?_, ?_⟩, ?_⟩
    · exact hunchanged.confirmWipe
    · exact hunchanged.plain
    · exact hunchanged.unattend

/-- **An untouched save.** The save succeeds and the machine gets what it got before, if and
only if the config survives the form over this default. -/
theorem saveUntouched_unchanged_iff (P : Primitives) (masterKey : Option Key) (ivs : String → IV)
    (serial : String) (stored : Bytes) (d c : Object)
    (h : unmarshal (trimBOM stored) = some (some c)) (hc : Documented c) :
    (∃ out c', saveUntouched P masterKey ivs serial stored = some out ∧
        unmarshal out = some c' ∧ mergeConfig (some d) c' = mergeConfig (some d) (some c)) ↔
      Unchanged d c stored := by
  by_cases hdisk : ∀ v, c.lookup "targetDisk" = some v → IsString v
  · rw [saveUntouched_eq h hc hdisk]
    have hmerge : (∃ out c',
        some (marshalIndent (storedConfig P masterKey ivs stored c)) = some out ∧
        unmarshal out = some c' ∧ mergeConfig (some d) c' = mergeConfig (some d) (some c)) ↔
        mergeConfig (some d) (storedConfig P masterKey ivs stored c) =
          mergeConfig (some d) (some c) := by
      constructor
      · rintro ⟨_, c', ⟨⟩, hread, hmerge⟩
        rw [unmarshal_marshalIndent (shallow_storedConfig hc), Option.some.injEq] at hread
        exact hread ▸ hmerge
      · exact fun hmerge =>
          ⟨_, _, rfl, unmarshal_marshalIndent (shallow_storedConfig hc), hmerge⟩
    rw [hmerge]
    exact mergeConfig_storedConfig_iff h hc hdisk
  · -- a numeric disk: nothing is saved, and the condition fails
    push Not at hdisk
    obtain ⟨v, hv, hnot⟩ := hdisk
    rcases hc.targetDisk v hv with hstring | ⟨n, rfl, -⟩
    · exact absurd hstring hnot
    · rw [saveUntouched_number h hv]
      refine iff_of_false (by simp) fun hunchanged => ?_
      obtain ⟨s, ⟨⟩, -⟩ := hunchanged.plain "targetDisk" (by simp [plainFields]) _ hv

/-! ## A config that survives, and one that does not -/

def sampleConfig : Object := ofMembers (sparse
  [("mode", some (.str "zerotouch")), ("confirmWipe", some (.bool true))])

theorem lookup_sampleConfig : sampleConfig.lookup k =
    if k = "mode" then some (.str "zerotouch")
    else if k = "confirmWipe" then some (.bool true) else none := by
  rw [sampleConfig, lookup_ofMembers_sparse (by simp), KeyedList.lookup_cons_ite,
    KeyedList.lookup_cons_ite]
  split_ifs <;> rfl

theorem sampleConfig_documented : Documented sampleConfig := by
  refine ⟨fun k v h => ?_, ?_, ?_, ?_, ?_, ?_, ?_⟩
  · rw [lookup_sampleConfig] at h
    split_ifs at h with hmode hwipe
    · simp [hmode]
    · simp [hwipe]
  all_goals simp [lookup_sampleConfig, IsString]

theorem sampleConfig_unchanged (stored : Bytes) :
    Unchanged Object.empty sampleConfig stored := by
  have hblock : blockOf sampleConfig = Object.empty := by
    have hnone : Config.unattend (some sampleConfig) = none :=
      object?_eq_none.mpr fun b hb => by
        change sampleConfig.lookup "unattend" = _ at hb
        simp [lookup_sampleConfig] at hb
    rw [blockOf, hnone]
    rfl
  constructor
  case unattend => simp [hblock]
  all_goals simp [lookup_sampleConfig, plainFields]

/-- The condition is met by a config that states its mode and its wipe confirmation. -/
theorem saveUntouched_unchanged_sample :
    ∃ out c', saveUntouched default none sampleIVs "5CG1234XYZ"
        (stringify sampleConfig.toJson) = some out ∧ unmarshal out = some c' ∧
      mergeConfig (some Object.empty) c' = mergeConfig (some Object.empty) (some sampleConfig) := by
  have hread : unmarshal (trimBOM (stringify sampleConfig.toJson)) = some (some sampleConfig) := by
    rw [toJson, unmarshal_stringify ⟨by decide, sampleConfig.canonical.inRange⟩, ofMembers_members]
  exact (saveUntouched_unchanged_iff default none sampleIVs "5CG1234XYZ"
    (stringify sampleConfig.toJson) Object.empty sampleConfig hread sampleConfig_documented).mpr
      (sampleConfig_unchanged _)

/-- The empty config of a machine that inherits an interactive default is saved as a zero-touch
one. -/
theorem empty_config_not_unchanged :
    ∃ (d c : Object) (stored : Bytes), unmarshal (trimBOM stored) = some (some c) ∧
      Documented c ∧ d.lookup "mode" = some (.str "interactive") ∧
      ¬ ∃ out c', saveUntouched default none sampleIVs "5CG1234XYZ" stored = some out ∧
        unmarshal out = some c' ∧ mergeConfig (some d) c' = mergeConfig (some d) (some c) := by
  have hmode : (ofMembers (sparse [("mode", some (.str "interactive"))])).lookup "mode" =
      some (.str "interactive") := by
    rw [lookup_ofMembers_sparse (by simp)]
    rfl
  have hread : unmarshal (trimBOM (stringify Object.empty.toJson)) = some (some Object.empty) := by
    rw [toJson, unmarshal_stringify ⟨by decide, rfl⟩, ofMembers_members]
  have hdoc : Documented Object.empty := by
    refine ⟨?_, ?_, ?_, ?_, ?_, ?_, ?_⟩ <;> simp
  refine ⟨_, Object.empty, _, hread, hdoc, hmode, ?_⟩
  rintro ⟨out, c', hsave, hout, hmerge⟩
  rw [saveUntouched_eq hread hdoc (by simp), Option.some.injEq] at hsave
  rw [← hsave, unmarshal_marshalIndent (shallow_storedConfig hdoc), Option.some.injEq] at hout
  rw [← hout] at hmerge
  have hinherits := ((mergeConfig_storedConfig_iff hread hdoc (by simp)).mp hmerge).mode rfl
  rw [hmode] at hinherits
  simp at hinherits

end WinDep.Editor
