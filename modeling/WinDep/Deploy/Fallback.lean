/-
# The fallback of the config

A field of the config falls back from the server's answer to the local defaults
and from there to a literal. Under strict mode it does so exactly if there is
nothing to fall back from: both layers must have every field.
-/

import WinDep.Deploy.Routing

namespace WinDep.Deploy

open Json Program

/-! ## The layers -/

/-- The value of a field, null where there is none. -/
def present (ps : PowerShell) (v : Json) (name : String) : Json :=
  match ps.read v name with
  | .ok w => w
  | .error _ => .null

/-- The first value of a field that is not null, from the layers of a config, else the fallback; an
array of one item passes as that item. -/
def layered (ps : PowerShell) (layers : List Json) (name : String) (fallback : Json) : Json :=
  unroll (((layers.map (present ps · name)).find? (!isNull ·)).getD fallback)

/-- Every field of the plan comes from the first layer that gives it. -/
structure FallsBack (ps : PowerShell) (identity : Identity) (layers : List Json) (c : ZtpConfig) :
    Prop where
  mode : c.mode = layered ps layers "mode" (.str "interactive")
  diskRule : c.diskRule = layered ps layers "targetDisk" (.str "largest")
  computerName : expandNameTemplate ps
    (layered ps layers "computerName" (.str "WKS-\x7bSERIAL\x7d")) identity = .ok c.computerName
  imageUrl : c.imageUrl = layered ps layers "imageUrl" .null
  confirmWipe : c.confirmWipe = truthy (layered ps layers "confirmWipe" (.bool true))

/-! ## The server's answer -/

section

variable (ps : PowerShell) (answers : (c : Call) → c.Answer) (server : Json) (apiUrl : String)
  (identity : Identity) (inventory : Json)

/-- What the api resolves for the machine. -/
def resolvedAnswer : Json :=
  resolvedConfig ps (answers (.postResolve (resolveUri apiUrl)
    (ps.convertToJson (resolvePayload identity inventory))))

/-- The default config of the deploy server. -/
def defaultAnswer : Json :=
  orNull (readJson ps (defaultUri ps server) (answers (.get (defaultUri ps server))))

/-- A resolved config, a default config, or null. -/
def serverAnswer : Json :=
  if truthy (resolvedAnswer ps answers apiUrl identity inventory) then
    resolvedAnswer ps answers apiUrl identity inventory
  else defaultAnswer ps answers server

end

variable {ps : PowerShell} {answers : (c : Call) → c.Answer} {settings server sd cfg : Json}
  {apiUrl name : String} {identity : Identity} {inventory fallback : Json}

/-- Fetching the config normalizes the server's answer. -/
theorem result_getZtpConfig_answers (inventory : Json)
    (hsettings : answers .getZtpSettings = .ok settings)
    (hidentity : answers .getMachineIdentity = .ok identity)
    (haddresses : addresses ps settings = .ok (server, apiUrl)) :
    ∃ found source, result answers (getZtpConfig ps inventory) =
      normalizeConfig ps settings server apiUrl identity
        (serverAnswer ps answers server apiUrl identity inventory) found source := by
  have hcalled : result answers getZtpSettings = .ok settings := hsettings
  have hidentity : result answers getMachineIdentity = .ok identity := hidentity
  simp only [addresses, bind_eq_ok] at haddresses
  obtain ⟨url, hurl, server', hserver, api, hapi, apiUrl', hbound, haddresses⟩ := haddresses
  cases haddresses
  have hresolve : result answers (invokeZtpResolve ps apiUrl identity inventory) =
      .ok (resolvedAnswer ps answers apiUrl identity inventory) := rfl
  have hdefault : result answers (defaultConfig ps server) =
      .ok (defaultAnswer ps answers server) := rfl
  simp only [getZtpConfig, result_bind, result_liftExcept, hcalled, hurl, hserver, hapi, hidentity,
    hbound, ok_bind, hresolve, serverAnswer]
  split_ifs with htruthy
  · exact ⟨true, _, rfl⟩
  · rw [result_bind, hdefault]
    exact ⟨false, _, rfl⟩

/-! ## What strict mode makes of it -/

/-- A field that both layers have comes from the first layer that gives it. -/
theorem configField_eq_layered {v : Json} (h : configField ps cfg sd name fallback = .ok v) :
    v = layered ps [cfg, sd] name fallback := by
  simp only [configField, bind_eq_ok] at h
  obtain ⟨a, ha, b, hb, hv⟩ := h
  cases hv
  simp only [layered, present, ha, hb, List.map_cons, List.map_nil, pick]
  cases hnull : isNull a with
  | false => simp [hnull]
  | true => cases hnull' : isNull b <;> simp [hnull, hnull']

/-- Nothing can be read of null. -/
theorem not_hasFields_null : ¬ HasFields ps .null := by
  intro h
  obtain ⟨w, hw⟩ := h "mode" (by simp [configFields])
  cases hw

/-- An object has the fields that are among its names, in any case. -/
theorem hasFields_obj {ms : Members} :
    HasFields ps (.obj ms) ↔
      ∀ name ∈ configFields, ∃ m ∈ ms, ps.sameName m.1 name = true := by
  unfold HasFields
  apply forall_congr'
  intro name
  apply imp_congr_right
  intro _
  simp only [PowerShell.read, PowerShell.property?, PowerShell.properties]
  cases hfind : ms.find? fun m => ps.sameName m.1 name with
  | none =>
    constructor
    · rintro ⟨w, hw⟩
      cases hw
    · rintro ⟨m, hm, hname⟩
      exact absurd hname (by simpa using List.find?_eq_none.mp hfind m hm)
  | some m =>
    constructor
    · intro _
      exact ⟨m, List.mem_of_find?_eq_some hfind, by simpa using List.find?_some hfind⟩
    · intro _
      exact ⟨m.2, rfl⟩

/-- Both layers have every field, the name template is no array, and the unattend block can be read
if there is one. -/
structure Complete (ps : PowerShell) (cfg sd : Json) : Prop where
  server : HasFields ps cfg
  defaults : HasFields ps sd
  template : ∀ items,
    layered ps [cfg, sd] "computerName" (.str "WKS-\x7bSERIAL\x7d") ≠ .arr items
  unattend : truthy cfg = true → ∃ u, ps.readOr cfg "unattend" .null = .ok u

/-- The fields can be read exactly if both layers are complete. -/
theorem readable_iff_complete (hsd : ps.read settings "defaults" = .ok sd) :
    Readable ps settings cfg ↔ Complete ps cfg sd := by
  constructor
  · rintro ⟨hfields, ⟨sd', hsd', hdefaults, htemplate⟩, hunattend⟩
    rw [hsd, Except.ok.injEq] at hsd'
    subst hsd'
    obtain ⟨v, hv⟩ : ∃ v, configField ps cfg sd "computerName" (.str "WKS-\x7bSERIAL\x7d") =
        .ok v := ok_configField.mpr
      ⟨hfields "computerName" (by simp [configFields]),
        hdefaults "computerName" (by simp [configFields])⟩
    refine ⟨hfields, hdefaults, ?_, hunattend⟩
    rw [← configField_eq_layered hv]
    exact htemplate v hv
  · rintro ⟨hfields, hdefaults, htemplate, hunattend⟩
    refine ⟨hfields, ⟨sd, hsd, hdefaults, fun v hv => ?_⟩, hunattend⟩
    rw [configField_eq_layered hv]
    exact htemplate

/-- A config that was normalized has fallen back field by field. -/
theorem fallsBack_of_ok {found : Bool} {source : String} {c : ZtpConfig}
    (hsd : ps.read settings "defaults" = .ok sd)
    (h : normalizeConfig ps settings server apiUrl identity cfg found source = .ok c) :
    FallsBack ps identity [cfg, sd] c := by
  simp only [normalizeConfig, bind_eq_ok] at h
  obtain ⟨sd', hsd', u, -, template, htemplate, n, hn, mode, hmode, disk, hdisk, image, himage,
    wipe, hwipe, hc⟩ := h
  rw [hsd, Except.ok.injEq] at hsd'
  subst hsd'
  cases hc
  exact {
    mode := configField_eq_layered hmode
    diskRule := configField_eq_layered hdisk
    computerName := by rwa [← configField_eq_layered htemplate]
    imageUrl := configField_eq_layered himage
    confirmWipe := congrArg truthy (configField_eq_layered hwipe) }

theorem addresses_ready : addresses .plain (.obj [("serverUrl", .str "https://deploy"),
    ("policyUrl", .str "https://opa"), ("defaults", zeroTouchConfig)]) =
      .ok (.str "https://deploy", "https://deploy") := rfl

theorem hasFields_zeroTouchConfig : HasFields .plain zeroTouchConfig :=
  hasFields_obj.mpr (by decide)

/-- A machine with every local default that gets no config from any server. -/
def strandedMachine : (c : Call) → c.Answer
  | .get _ => .failed ""
  | c => readyMachine c

end WinDep.Deploy
