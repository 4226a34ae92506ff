/-
# Secrets at rest

With a key configured, the secrets of a stored config are sealed exactly when
the two values the admin stores as they come are sealed already: a previous value
kept by the sentinel, and a typed value that begins like an envelope. A freshly
typed plaintext is always sealed, and a blank or non-string value is not stored.
-/

import WinDep.Config.Secret

namespace WinDep.Admin

open Json Envelope

variable (P : Primitives) (key : Key)

/-- The value is an envelope that opens to a non-empty plaintext under the key. -/
def Sealed (s : String) : Prop :=
  isEncrypted (toBytes s) = true ∧
    ∃ plain, decryptSecret P (some key) (toBytes s) = .ok plain ∧ plain ≠ []

/-- Every secret member of the file's unattend block is a sealed string. -/
def SecretsSealed (raw : Bytes) : Prop :=
  ∀ cfg un, unmarshal raw = some cfg → cfg.unattend = some un →
    ∀ k v, un.lookup k = some v → isSecretField k = true → ∃ s, v = .str s ∧ Sealed P key s

/-- If the value is stored as it comes, or keeps the previous value, what is stored is
sealed. A kept value that is no string, or empty, is not stored at all. -/
def StoredSealed (incoming : String) (prev : Option Json) : Prop :=
  if incoming = keepSentinel then ∀ s, prev = some (.str s) → s ≠ "" → Sealed P key s
  else isEncrypted (toBytes incoming) = true → Sealed P key incoming

/-- Every secret string of the incoming block keeps or carries only sealed values. -/
def IncomingSealed (newRaw prevRaw : Bytes) : Prop :=
  ∀ cfg un, unmarshal (trimBOM newRaw) = some cfg → cfg.unattend = some un →
    ∀ k s, un.lookup k = some (.str s) → isSecretField k = true →
      StoredSealed P key s ((prevUnattend prevRaw).lookup k)

variable {P key} {ivs : String → IV} {iv : IV} {incoming : String} {prev : Option Json}
  {newRaw prevRaw : Bytes}

theorem sealed_envelope {plain : Bytes} (h : plain ≠ []) :
    Sealed P key (ofBytes (envelope P key iv plain)) := by
  rw [Sealed, toBytes_ofBytes_envelope]
  exact ⟨isEncrypted_envelope, plain, openEnvelope_envelope, h⟩

theorem Sealed.ne_empty {s : String} (h : Sealed P key s) : s ≠ "" := by
  rintro rfl
  exact absurd h.1 (by decide)

/-- What one member is resolved to is absent or sealed exactly under the condition. -/
theorem resolveSecret_sealed_iff (iv : IV) :
    (resolveSecret P (some key) iv incoming prev ≠ "" →
        Sealed P key (resolveSecret P (some key) iv incoming prev)) ↔
      StoredSealed P key incoming prev := by
  unfold StoredSealed
  split_ifs with hkeep
  · -- kept: the previous string, whatever it is
    subst hkeep
    rw [resolveSecret, if_pos rfl]
    constructor
    · rintro h s rfl hs
      exact h hs
    · intro h hne
      cases hprev : prev.bind str? with
      | none => simp [hprev] at hne
      | some s =>
        obtain ⟨v, hv, hstr⟩ := Option.bind_eq_some_iff.mp hprev
        rw [hprev] at hne
        exact h s (by rw [hv, str?_eq_some.mp hstr]) hne
  by_cases hsealed : isEncrypted (toBytes incoming) = true
  · -- typed as an envelope: stored unchanged
    rw [resolveSecret_sealed hkeep hsealed]
    have hne : incoming ≠ "" := by
      rintro rfl
      exact absurd hsealed (by decide)
    exact ⟨fun h _ => h hne, fun h _ => h hsealed⟩
  · -- blank or fresh: dropped, or sealed just now
    refine iff_of_true (fun hne => ?_) fun h => absurd h hsealed
    by_cases hempty : incoming = ""
    · subst hempty
      exact absurd (by simp [resolveSecret, hkeep]) hne
    · rw [resolveSecret_fresh hkeep hempty (by simpa using hsealed)]
      exact sealed_envelope (mt toBytes_eq_nil.mp hempty)

theorem secretsSealed_marshalIndent_iff {cfg : Config} {prevUn : Object} (hcfg : cfg.Shallow) :
    SecretsSealed P key (marshalIndent (storeConfig P (some key) ivs prevUn cfg)) ↔
      ∀ un, cfg.unattend = some un → ∀ k s, un.lookup k = some (.str s) →
        isSecretField k = true → StoredSealed P key s (prevUn.lookup k) := by
  have hread : SecretsSealed P key (marshalIndent (storeConfig P (some key) ivs prevUn cfg)) ↔
      ∀ un, cfg.unattend = some un → ∀ k v, un.lookup k = some v → isSecretField k = true →
        ∀ w, storeMember P (some key) ivs prevUn k v = some w →
          ∃ s, w = .str s ∧ Sealed P key s := by
    unfold SecretsSealed
    rw [unmarshal_marshalIndent (shallow_storeConfig hcfg)]
    constructor
    · intro h un hun k v hv hk w hw
      refine h _ (storeUnattend P (some key) ivs prevUn un) rfl ?_ k w ?_ hk
      · rw [unattend_storeConfig, hun, Option.map_some]
      · rw [lookup_storeUnattend, hv, Option.bind_some, hw]
    · rintro h _ un' ⟨⟩ hun' k w hw hk
      rw [unattend_storeConfig, Option.map_eq_some_iff] at hun'
      obtain ⟨un, hun, rfl⟩ := hun'
      rw [lookup_storeUnattend, Option.bind_eq_some_iff] at hw
      obtain ⟨v, hv, hw⟩ := hw
      exact h un hun k v hv hk w hw
  rw [hread]
  refine forall₂_congr fun un _ => ⟨fun h k s hs hk => ?_, fun h k v hv hk w hw => ?_⟩
  · apply (resolveSecret_sealed_iff (ivs k)).mp
    intro hne
    obtain ⟨_, ⟨⟩, hsealed⟩ := h k _ hs hk _ ((storeMember_secret hk).mpr ⟨_, rfl, hne, rfl⟩)
    exact hsealed
  · obtain ⟨s, rfl, hne, rfl⟩ := (storeMember_secret hk).mp hw
    refine ⟨_, rfl, ?_⟩
    cases hstr : v.str? with
    | none => simp [hstr, resolveSecret, keepSentinel] at hne
    | some s =>
      rw [hstr] at hne
      exact (resolveSecret_sealed_iff (ivs k)).mpr (h k s (by rw [hv, str?_eq_some.mp hstr]) hk) hne

/-- **Secrets at rest.** Every secret of the stored config is sealed if and only if every
kept previous value and every typed envelope was sealed already. -/
theorem encryptConfigJSON_secretsSealed_iff (P : Primitives) (key : Key) (ivs : String → IV)
    (newRaw prevRaw : Bytes) :
    (∀ out, encryptConfigJSON P (some key) ivs newRaw prevRaw = some out →
        SecretsSealed P key out) ↔ IncomingSealed P key newRaw prevRaw := by
  simp only [encryptConfigJSON_eq_some, IncomingSealed]
  constructor
  · intro h cfg un hcfg
    exact (secretsSealed_marshalIndent_iff (shallow_of_unmarshal hcfg)).mp
      (h _ ⟨cfg, hcfg, rfl⟩) un
  · rintro h out ⟨cfg, hcfg, rfl⟩
    exact (secretsSealed_marshalIndent_iff (shallow_of_unmarshal hcfg)).mpr fun un => h cfg un hcfg

/-- A password stored before the key was rolled out stays in the clear when it is kept. -/
theorem kept_plaintext_not_sealed :
    ¬ ∃ (P : Primitives) (key : Key) (ivs : String → IV), ∀ out,
      encryptConfigJSON P (some key) ivs
          (marshalIndent (Config.oneMember "LOCALADMINPASS" "__KEEP__"))
          (marshalIndent (Config.oneMember "LOCALADMINPASS" "hunter2")) = some out →
        SecretsSealed P key out := by
  rintro ⟨P, key, ivs, h⟩
  have hshallow := Config.shallow_oneMember "LOCALADMINPASS"
  have hstored := (secretsSealed_marshalIndent_iff (hshallow "__KEEP__")).mp
    (h _ (encryptConfigJSON_eq_some.mpr
      ⟨_, by rw [trimBOM_marshalIndent, unmarshal_marshalIndent (hshallow _)], rfl⟩))
    _ (Config.unattend_oneMember _ _) _ _ (Config.lookup_oneMember _ _) (by decide)
  rw [prevUnattend_marshalIndent (hshallow _), Config.unattend_oneMember, Option.getD_some,
    Config.lookup_oneMember, StoredSealed, if_pos (by decide)] at hstored
  exact absurd (hstored "hunter2" rfl (by decide)).1 (by decide)

end WinDep.Admin
