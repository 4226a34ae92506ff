/-
# What can be read

Under strict mode a config is normalized exactly if every field that is read is
there, in the config and in the local defaults, whether or not it is used.
-/

import WinDep.Deploy.Config

namespace WinDep.Deploy

open Json Program

/-- The fields that are read of a config and of the local defaults. -/
def configFields : List String := ["computerName", "mode", "targetDisk", "imageUrl", "confirmWipe"]

def HasFields (ps : PowerShell) (v : Json) : Prop :=
  ∀ name ∈ configFields, ∃ w, ps.read v name = .ok w

/-- A config that can be normalized with the settings. -/
structure Readable (ps : PowerShell) (settings cfg : Json) : Prop where
  fields : HasFields ps cfg
  defaults : ∃ sd, ps.read settings "defaults" = .ok sd ∧ HasFields ps sd ∧
    ∀ template, configField ps cfg sd "computerName" (.str "WKS-\x7bSERIAL\x7d") = .ok template →
      ∀ items, template ≠ .arr items
  unattend : truthy cfg = true → ∃ u, ps.readOr cfg "unattend" .null = .ok u

/-- Where the server and the api are, by the settings. -/
def addresses (ps : PowerShell) (settings : Json) : Except Raised (Json × String) := do
  let server ← trimEndOf (← ps.read settings "serverUrl")
  let api ← apiBase ps settings server
  return (server, ← ps.bindMandatory "ApiUrl" api)

/-- A status report can be addressed. -/
def Reports (ps : PowerShell) (settings : Json) : Prop :=
  ∃ base url, reportBase ps settings = .ok base ∧ ps.bindMandatory "ServerUrl" base = .ok url

/-- Every part of the policy's config can be read. -/
def Mergeable (ps : PowerShell) (decision : PolicyDecision) : Prop :=
  truthy decision.config = true →
    ∀ name ∈ ["mode", "targetDisk", "computerName", "imageUrl", "unattend"],
      ∃ v, given ps decision.config name = .ok v

/-- The mode that a config and a decision ask for is not interactive. -/
def AsksZeroTouch (ps : PowerShell) (settings cfg : Json) (decision : PolicyDecision) : Prop :=
  ∃ sd mode overlaid, ps.read settings "defaults" = .ok sd ∧
    configField ps cfg sd "mode" (.str "interactive") = .ok mode ∧
    (if truthy decision.config then given ps decision.config "mode" else .ok none) = .ok overlaid ∧
    ps.ne (overlaid.getD mode) "interactive" = true

variable {ps : PowerShell} {settings cfg sd server : Json} {apiUrl name source : String}
  {identity : Identity} {decision : PolicyDecision} {found : Bool} {fallback : Json}

theorem ok_configField :
    (∃ v, configField ps cfg sd name fallback = .ok v) ↔
      (∃ a, ps.read cfg name = .ok a) ∧ ∃ b, ps.read sd name = .ok b := by
  simp only [configField, ok_bind_iff]
  constructor
  · rintro ⟨a, ha, b, hb, -⟩
    exact ⟨⟨a, ha⟩, b, hb⟩
  · rintro ⟨⟨a, ha⟩, b, hb⟩
    exact ⟨a, ha, b, hb, _, rfl⟩

/-- A name template is refused only if it is an array. -/
theorem ok_expandNameTemplate {template : Json} :
    (∃ v, expandNameTemplate ps template identity = .ok v) ↔ ∀ items, template ≠ .arr items := by
  rw [expandNameTemplate, ok_bind_iff]
  constructor
  · rintro ⟨s, hs, -⟩ items rfl
    cases hs
  · intro h
    refine ⟨ps.text template, ?_, ?_⟩
    · cases template with
      | arr items => exact absurd rfl (h items)
      | _ => rfl
    · split_ifs
      · exact ⟨_, rfl⟩
      · exact ⟨_, rfl⟩

theorem ok_unattendOf :
    (∃ u, unattendOf ps cfg = .ok u) ↔
      (truthy cfg = true → ∃ u, ps.readOr cfg "unattend" .null = .ok u) := by
  unfold unattendOf PowerShell.readOr
  split_ifs with htruthy
  · simp only [htruthy, true_implies, ok_bind_iff]
    apply exists_congr
    intro has
    apply and_congr_right
    intro _
    cases has with
    | false => exact ⟨fun _ => ⟨_, rfl⟩, fun _ => ⟨_, rfl⟩⟩
    | true =>
      simp only [if_true, ok_bind_iff]
      constructor
      · rintro ⟨u, hu, -⟩
        exact ⟨u, hu⟩
      · rintro ⟨u, hu⟩
        exact ⟨u, hu, _, rfl⟩
  · exact ⟨fun _ h => absurd h htruthy, fun _ => ⟨_, rfl⟩⟩

/-- A config is normalized exactly if it can be read. -/
theorem ok_normalizeConfig :
    (∃ c, normalizeConfig ps settings server apiUrl identity cfg found source = .ok c) ↔
      Readable ps settings cfg := by
  simp only [normalizeConfig, ok_bind_iff]
  constructor
  · -- each read that succeeded is of a field that is there
    rintro ⟨sd, hsd, u, hu, template, htemplate, n, hn, mode, hmode, disk, hdisk, image, himage,
      wipe, hwipe, -⟩
    have hname := ok_configField.mp ⟨_, htemplate⟩
    have hmode := ok_configField.mp ⟨_, hmode⟩
    have hdisk := ok_configField.mp ⟨_, hdisk⟩
    have himage := ok_configField.mp ⟨_, himage⟩
    have hwipe := ok_configField.mp ⟨_, hwipe⟩
    refine ⟨?_, ⟨sd, hsd, ?_, ?_⟩, ok_unattendOf.mp ⟨u, hu⟩⟩
    · simpa [HasFields, configFields] using
        ⟨hname.1, hmode.1, hdisk.1, himage.1, hwipe.1⟩
    · simpa [HasFields, configFields] using
        ⟨hname.2, hmode.2, hdisk.2, himage.2, hwipe.2⟩
    · intro template' htemplate'
      rw [htemplate, Except.ok.injEq] at htemplate'
      exact htemplate' ▸ ok_expandNameTemplate.mp ⟨n, hn⟩
  · rintro ⟨hfields, ⟨sd, hsd, hdefaults, htemplate⟩, hunattend⟩
    have hfield (name : String) (fallback : Json) (hname : name ∈ configFields) :
        ∃ v, configField ps cfg sd name fallback = .ok v :=
      ok_configField.mpr ⟨hfields name hname, hdefaults name hname⟩
    obtain ⟨u, hu⟩ := ok_unattendOf.mpr hunattend
    obtain ⟨template, ht⟩ := hfield "computerName" (.str "WKS-\x7bSERIAL\x7d")
      (by simp [configFields])
    obtain ⟨n, hn⟩ := (@ok_expandNameTemplate ps identity template).mpr (htemplate template ht)
    obtain ⟨mode, hmode⟩ := hfield "mode" (.str "interactive") (by simp [configFields])
    obtain ⟨disk, hdisk⟩ := hfield "targetDisk" (.str "largest") (by simp [configFields])
    obtain ⟨image, himage⟩ := hfield "imageUrl" .null (by simp [configFields])
    obtain ⟨wipe, hwipe⟩ := hfield "confirmWipe" (.bool true) (by simp [configFields])
    exact ⟨sd, hsd, u, hu, template, ht, n, hn, mode, hmode, disk, hdisk, image, himage, wipe,
      hwipe, _, rfl⟩

theorem normalizeConfig_mode {c : ZtpConfig}
    (h : normalizeConfig ps settings server apiUrl identity cfg found source = .ok c) :
    c.hasMachineConfig = found ∧ ∃ sd, ps.read settings "defaults" = .ok sd ∧
      configField ps cfg sd "mode" (.str "interactive") = .ok c.mode := by
  simp only [normalizeConfig, bind_eq_ok] at h
  obtain ⟨sd, hsd, u, -, template, -, n, -, mode, hmode, disk, -, image, -, wipe, -, hc⟩ := h
  cases hc
  exact ⟨rfl, sd, hsd, hmode⟩

/-! ## The config of the policy engine -/

theorem ok_overlay {c : ZtpConfig} :
    (∃ c', overlay ps decision c = .ok c') ↔ Mergeable ps decision := by
  unfold overlay Mergeable
  split_ifs with htruthy
  · simp only [htruthy, true_implies, mergePolicyConfig, ok_bind_iff, List.forall_mem_cons,
      List.not_mem_nil, false_implies, implies_true, and_true]
    constructor
    · rintro ⟨mode, hmode, disk, hdisk, name, hname, image, himage, u, hu, -⟩
      exact ⟨⟨mode, hmode⟩, ⟨disk, hdisk⟩, ⟨name, hname⟩, ⟨image, himage⟩, u, hu⟩
    · rintro ⟨⟨mode, hmode⟩, ⟨disk, hdisk⟩, ⟨name, hname⟩, ⟨image, himage⟩, u, hu⟩
      exact ⟨mode, hmode, disk, hdisk, name, hname, image, himage, u, hu, _, rfl⟩
  · exact ⟨fun _ h => absurd h htruthy, fun _ => ⟨c, rfl⟩⟩

theorem overlay_mode {c c' : ZtpConfig} (h : overlay ps decision c = .ok c') :
    c'.hasMachineConfig = c.hasMachineConfig ∧ ∃ overlaid,
      (if truthy decision.config then given ps decision.config "mode" else .ok none) =
        .ok overlaid ∧ c'.mode = overlaid.getD c.mode := by
  unfold overlay at h
  split_ifs at h ⊢
  · simp only [mergePolicyConfig, bind_eq_ok] at h
    obtain ⟨mode, hmode, disk, -, name, -, image, -, u, -, hc⟩ := h
    cases hc
    exact ⟨rfl, mode, hmode, rfl⟩
  · cases h
    exact ⟨rfl, none, rfl, rfl⟩

/-- A config that was normalized and overlaid goes zero-touch exactly if it is the machine's own
and asks for it. -/
theorem goesZeroTouch_iff {c c' : ZtpConfig}
    (h : normalizeConfig ps settings server apiUrl identity cfg found source = .ok c)
    (h' : overlay ps decision c = .ok c') :
    goesZeroTouch ps c' = true ↔ found = true ∧ AsksZeroTouch ps settings cfg decision := by
  obtain ⟨hfound, sd, hsd, hmode⟩ := normalizeConfig_mode h
  obtain ⟨hfound', overlaid, hoverlaid, hmode'⟩ := overlay_mode h'
  rw [goesZeroTouch, hfound', hfound, hmode', Bool.and_eq_true]
  apply and_congr_right
  intro _
  constructor
  · intro hne
    exact ⟨sd, c.mode, overlaid, hsd, hmode, hoverlaid, hne⟩
  · rintro ⟨sd₁, mode₁, overlaid₁, hsd₁, hmode₁, hoverlaid₁, hne⟩
    -- the reads have one answer
    rw [hsd, Except.ok.injEq] at hsd₁
    rw [← hsd₁, hmode, Except.ok.injEq] at hmode₁
    rw [hoverlaid, Except.ok.injEq] at hoverlaid₁
    rwa [hmode₁, hoverlaid₁]

/-! ## Addresses -/

theorem mandatory_str {param t : String} (h : t ≠ "") :
    ps.bindMandatory param (.str t) = .ok t := if_neg h

theorem ne_of_mandatory {param t s : String} (h : ps.bindMandatory param (.str t) = .ok s) :
    t ≠ "" := by
  rintro rfl
  cases h

theorem not_mandatory_arr {param s : String} {items : List Json} :
    ps.bindMandatory param (.arr items) ≠ .ok s := nofun

/-- A value that is a usable address after trimming was one before. -/
theorem mandatory_of_trimEnd {param param' s : String} {v t : Json} (ht : trimEndOf v = .ok t)
    (hs : ps.bindMandatory param (unroll t) = .ok s) :
    ∃ s', ps.bindMandatory param' (unroll v) = .ok s' := by
  have hstr {text : String}
      (h : ps.bindMandatory param (.str (trimEndSlash text)) = .ok s) : text ≠ "" := by
    rintro rfl
    exact ne_of_mandatory h rfl
  match v, ht with
  | .str text, ht =>
    cases ht
    exact ⟨text, mandatory_str (hstr hs)⟩
  | .arr [], ht => cases ht
  | .arr [.str text], ht =>
    cases ht
    exact ⟨text, mandatory_str (hstr hs)⟩
  | .arr [.null], ht | .arr [.bool _], ht | .arr [.num _], ht | .arr [.arr _], ht
  | .arr [.obj _], ht => cases ht
  | .arr (v :: w :: items), ht =>
    -- several addresses are trimmed to several, which no parameter takes
    simp only [trimEndOf, List.mapM_cons] at ht
    split at ht
    · next x xs hmap =>
      simp only [Option.bind_eq_bind, Option.bind_eq_some_iff, Option.pure_def,
        Option.some.injEq, List.cons.injEq] at hmap
      obtain ⟨_, -, _, ⟨y, -, ys, -, rfl⟩, -, rfl⟩ := hmap
      cases ht
      exact absurd hs not_mandatory_arr
    · cases ht
  | .null, ht | .bool _, ht | .num _, ht | .obj _, ht => cases ht

/-- Where the api can be addressed, a status report can be. -/
theorem reports_of_addresses {a : Json × String} (h : addresses ps settings = .ok a) :
    Reports ps settings := by
  simp only [addresses, bind_eq_ok] at h
  obtain ⟨url, hurl, server, hserver, api, hapi, apiUrl, hbound, -⟩ := h
  simp only [apiBase, bind_eq_ok] at hapi
  obtain ⟨has, hhas, hapi⟩ := hapi
  cases has with
  | true =>
    simp only [if_true, bind_eq_ok] at hapi
    obtain ⟨base, hbase, trimmed, htrimmed, hapi⟩ := hapi
    cases hapi
    obtain ⟨s, hs⟩ := mandatory_of_trimEnd htrimmed hbound
    refine ⟨unroll base, s, ?_, hs⟩
    simp [reportBase, hhas, hbase]
  | false =>
    cases hapi
    obtain ⟨s, hs⟩ := mandatory_of_trimEnd hserver hbound
    refine ⟨unroll url, s, ?_, hs⟩
    simp [reportBase, hhas, hurl]

end WinDep.Deploy
