/-
# Two routes to one outcome

Both entry points inventory the machine, ask the policy, fetch the config, lay
the policy's config over it and route. The api asks the same policy again with
the inventory that is passed on to it. Here both run on one machine against one
api and one policy engine.
-/

import WinDep.Api.Resolve
import WinDep.Deploy.Readable
import WinDep.Deploy.Window

namespace WinDep.Deploy

open Json Program Handler

/-- A machine with its local files, the policy engine, and the api with its stored configs. -/
structure World where
  ps : PowerShell
  /-- the answers to all calls but those to the engine and the api -/
  machine : (c : Call) → c.Answer
  opa : Api.PolicyEngine
  /-- the error of a client that does not reach a server -/
  outage : String
  /-- whether the api answers at an address -/
  reaches : String → Bool
  lower : Char → Char
  env : Api.Environment
  P : Primitives
  masterKey : Option Key
  tree : Api.Tree
  ip : String
  /-- how the api writes a config -/
  marshal : Json → Bytes

namespace World

variable (w : World)

/-- A reply of the engine, as the client gets it. -/
def engineAnswer : Api.PolicyAnswer → HttpAnswer
  | .unreachable => .failed w.outage
  | .answered status body => .answered status body

/-- A response of the api, as the client gets it. -/
def apiAnswer (r : Api.Response) : HttpAnswer :=
  match r.body with
  | .text message => .answered r.status (toBytes message)
  | .config cfg => .answered r.status (w.marshal cfg.toJson)

/-- The answers of the machine, the engine and the api. -/
def answer : (c : Call) → c.Answer
  | .postPolicy _ body => w.engineAnswer (w.opa body)
  | .postResolve uri body =>
    if w.reaches uri then
      w.apiAnswer (Api.handleResolve w.lower w.env w.opa w.P w.masterKey w.tree w.ip body).1
    else .failed w.outage
  | c => w.machine c

/-- The outcome of the headless script in auto mode, if it reaches one. -/
def headless : Option Outcome :=
  (alone w.answer (Headless.route w.ps .auto).run .started).toOption

/-- The outcome of the front-end, if it reaches one. -/
def frontEnd : Option Outcome :=
  (alone w.answer (do
    let (identity, apiUrl) ← Window.startup w.ps
    Window.autoRoute w.ps identity apiUrl : Script Window.Ui (Json × Outcome)).run
      .opened).toOption.map Prod.snd

/-! ## The api -/

/-- The policy, as the api asks it with an inventory. It reads no request that nests too deeply. -/
def allows (inventory : Json) : Bool :=
  decide (inventory.nesting < maxNestingDepth) &&
    (Api.evalPolicy w.lower w.env w.opa (some inventory)).1

/-- The machine's own config as the client reads it, null if there is none. -/
def own (apiUrl : String) (identity : Identity) : Json :=
  if w.reaches (resolveUri apiUrl) && Api.validSerial identity.sanitizedSerial then
    match Api.resolveConfig w.P w.masterKey w.tree identity.sanitizedSerial with
    | .ok (some cfg) => resolvedConfig w.ps (.answered 200 (w.marshal cfg.toJson))
    | _ => .null
  else .null

/-- What the client gets of the resolve endpoint for an inventory. -/
def served (apiUrl : String) (identity : Identity) (inventory : Json) : Json :=
  resolvedConfig w.ps (w.answer (.postResolve (resolveUri apiUrl)
    (w.ps.convertToJson (resolvePayload identity inventory))))

/-- The default config, null if it cannot be had. -/
def defaults (server : Json) : Json :=
  orNull (readJson w.ps (defaultUri w.ps server) (w.machine (.get (defaultUri w.ps server))))

/-- The document the client normalizes: the machine's own config if the policy allows the inventory,
and the default config otherwise. -/
def document (server : Json) (apiUrl : String) (identity : Identity) (inventory : Json) : Json :=
  if w.allows inventory && truthy (w.own apiUrl identity) then w.own apiUrl identity
  else w.defaults server

end World

variable {w : World} {apiUrl : String} {identity : Identity} {inventory : Json}

theorem decodeString_optional (v : Option String) :
    decodeString "" (optional v) = some (v.getD "") := by
  cases v <;> rfl

theorem nesting_resolvePayload :
    (resolvePayload identity inventory).nesting = inventory.nesting + 1 := by
  have hoptional (v : Option String) : (optional v).nesting = 0 := by cases v <;> rfl
  simp [resolvePayload, nesting, nestingMembers, hoptional]

/-- The api reads back what the client sent, unless it nests too deeply. -/
theorem unmarshalRequest_payload :
    Api.unmarshalRequest (w.ps.convertToJson (resolvePayload identity inventory)) =
      if inventory.nesting < maxNestingDepth then
        some ⟨identity.sanitizedSerial, identity.mac.getD "", identity.model.getD "",
          some inventory⟩
      else none := by
  rw [Api.unmarshalRequest, checkValid, w.ps.parse_convertToJson, Option.filter_some,
    nesting_resolvePayload]
  simp only [Nat.succ_le_iff, decide_eq_true_eq]
  split_ifs
  swap
  · rfl
  rw [Option.bind_some, resolvePayload, decodeStruct, Api.ResolveRequest.decode]
  simp +decide only [decodeField_cons, decodeField_nil, decodeString_optional, if_true, if_false,
    Option.bind_some, Option.bind_eq_bind, Option.pure_def, Api.ResolveRequest.empty]
  rfl

/-- A refusal of the api is null to the client. -/
theorem resolvedConfig_error {status : ℕ} {message : String} (h : isSuccess status = false) :
    resolvedConfig w.ps (w.apiAnswer (.error status message)) = .null := by
  simp [resolvedConfig, World.apiAnswer, Api.Response.error, h]

/-- The client gets the machine's own config if the api's check allows, and null otherwise. -/
theorem served_eq :
    w.served apiUrl identity inventory =
      if w.allows inventory then w.own apiUrl identity else .null := by
  rw [World.served, World.answer, World.own, World.allows]
  cases hreach : w.reaches (resolveUri apiUrl) with
  | false => simp [resolvedConfig]
  | true =>
    -- a serial that is refused, a machine that is not enrolled, and a policy that refuses it are
    -- all null to the client
    simp only [if_true, Bool.true_and, Api.handleResolve, unmarshalRequest_payload]
    by_cases hnesting : inventory.nesting < maxNestingDepth
    swap
    · simp [hnesting, resolvedConfig_error, isSuccess]
    simp only [hnesting, if_true, decide_true, Bool.true_and]
    cases hserial : Api.validSerial identity.sanitizedSerial with
    | false => simp [resolvedConfig_error, isSuccess]
    | true =>
      simp only [Bool.not_true, Bool.false_eq_true, if_false, if_true]
      cases hcfg : Api.resolveConfig w.P w.masterKey w.tree identity.sanitizedSerial with
      | error e => simp [resolvedConfig_error, isSuccess]
      | ok cfg =>
        cases cfg with
        | none => simp [resolvedConfig_error, isSuccess]
        | some cfg =>
          cases hallow : (Api.evalPolicy w.lower w.env w.opa (some inventory)).1 with
          | false => simp [resolvedConfig_error, isSuccess]
          | true => simp [World.apiAnswer]

theorem truthy_served :
    truthy (w.served apiUrl identity inventory) =
      (w.allows inventory && truthy (w.own apiUrl identity)) := by
  rw [served_eq]
  cases w.allows inventory <;> rfl

/-! ## The config -/

variable {settings server : Json} {decision : PolicyDecision} {outcome : Outcome}

/-- Where the client says its config is from. -/
def World.source (w : World) (server : Json) (apiUrl : String) (identity : Identity)
    (inventory : Json) : String :=
  if w.allows inventory && truthy (w.own apiUrl identity) then apiUrl ++ "/api/ztp/resolve"
  else if truthy (w.defaults server) then defaultUri w.ps server
  else "(no server config — using local defaults)"

theorem result_defaultConfig :
    result w.answer (defaultConfig w.ps server) = .ok (w.defaults server) := rfl

/-- The inventory counts for the config only through what the api serves for it. -/
theorem result_getZtpConfig (hidentity : w.machine .getMachineIdentity = .ok identity)
    (hsettings : w.machine .getZtpSettings = .ok settings) :
    result w.answer (getZtpConfig w.ps inventory) = (do
      let (server, apiUrl) ← addresses w.ps settings
      normalizeConfig w.ps settings server apiUrl identity
        (w.document server apiUrl identity inventory)
        (w.allows inventory && truthy (w.own apiUrl identity))
        (w.source server apiUrl identity inventory)) := by
  have hcalled : result w.answer getZtpSettings = .ok settings := hsettings
  have hidentity : result w.answer getMachineIdentity = .ok identity := hidentity
  have hserved (apiUrl : String) :
      result w.answer (invokeZtpResolve w.ps apiUrl identity inventory) =
        .ok (w.served apiUrl identity inventory) := rfl
  simp only [getZtpConfig, result_bind, result_liftExcept, hcalled, addresses, bind_assoc]
  change (w.ps.read settings "serverUrl" >>= _) = _
  apply bind_congr
  intro url
  apply bind_congr
  intro server
  apply bind_congr
  intro api
  rw [hidentity]
  change (w.ps.bindMandatory "ApiUrl" api >>= _) = (w.ps.bindMandatory "ApiUrl" api >>= _)
  apply bind_congr
  intro apiUrl
  rw [hserved]
  change result w.answer (if truthy (w.served apiUrl identity inventory) then _ else _) = _
  change _ = normalizeConfig w.ps settings server apiUrl identity _ _ _
  -- what the api serves decides which document is normalized
  have htruthy := @truthy_served w apiUrl identity inventory
  cases hserves : w.allows inventory && truthy (w.own apiUrl identity) with
  | true =>
    rw [hserves] at htruthy
    have hown : w.served apiUrl identity inventory = w.own apiUrl identity := by
      rw [served_eq, if_pos (Bool.and_eq_true_iff.mp hserves).1]
    rw [if_pos htruthy, hown]
    simp only [hserves, World.document, World.source, if_true]
    rfl
  | false =>
    rw [hserves] at htruthy
    rw [if_neg (by simp [htruthy])]
    simp only [hserves, World.document, World.source, Bool.false_eq_true, if_false, result_bind,
      result_defaultConfig]
    rfl

/-- Fetching the config succeeds exactly if the api can be addressed and the document be read. -/
theorem ok_getZtpConfig (hidentity : w.machine .getMachineIdentity = .ok identity)
    (hsettings : w.machine .getZtpSettings = .ok settings) :
    (∃ cfg, result w.answer (getZtpConfig w.ps inventory) = .ok cfg) ↔
      ∃ server apiUrl, addresses w.ps settings = .ok (server, apiUrl) ∧
        Readable w.ps settings (w.document server apiUrl identity inventory) := by
  rw [result_getZtpConfig hidentity hsettings, ok_bind_iff]
  simp only [ok_normalizeConfig, Prod.exists]

/-! ## The two flows -/

/-- What the headless script does with a decision. -/
def World.headlessRest (w : World) (identity : Identity) (settings : Json)
    (decision : PolicyDecision) : Except Raised Outcome :=
  if decision.allow then do
    let cfg ← result w.answer (getZtpConfig w.ps .null)
    let cfg ← overlay w.ps decision cfg
    return Headless.followMode w.ps .auto cfg
  else do
    let base ← reportBase w.ps settings
    result w.answer (sendZtpStatus w.ps base identity .failed 0 (policyMessage decision))
    return .blocked decision

/-- What the front-end does with a decision. -/
def World.frontEndRest (w : World) (identity : Identity) (apiUrl inv : Json)
    (decision : PolicyDecision) : Except Raised Outcome := do
  result w.answer (sendZtpStatus w.ps apiUrl identity
    (if decision.allow then .progress else .failed) 0 (policyMessage decision))
  if decision.allow then
    match result w.answer (getZtpConfig w.ps inv) with
    | .error _ => return .interactive
    | .ok cfg =>
      let cfg ← overlay w.ps decision cfg
      return if goesZeroTouch w.ps cfg then .zeroTouch cfg else .interactive
  else return .blocked decision

theorem alone_record_bind {α : Type} {answers : (c : Call) → c.Answer} {a : Action}
    {g : Unit → Script Headless.Session α} {s : Headless.Session} :
    alone answers (Headless.record a >>= g).run s =
      alone answers (g ()).run { s with history := s.history ++ [a] } := rfl

theorem alone_keepConfig_bind {α : Type} {answers : (c : Call) → c.Answer} {cfg : ZtpConfig}
    {g : Unit → Script Headless.Session α} {s : Headless.Session} :
    alone answers (Headless.keepConfig cfg >>= g).run s =
      alone answers (g ()).run { s with cfg := some cfg } := rfl

theorem alone_update_bind {α : Type} {answers : (c : Call) → c.Answer}
    {f : Window.Ui → Window.Ui} {g : Unit → Script Window.Ui α} {s : Window.Ui} :
    alone answers (Window.update f >>= g).run s = alone answers (g ()).run (f s) := rfl

theorem alone_render_bind {α : Type} {answers : (c : Call) → c.Answer}
    {g : Unit → Script Window.Ui α} {s : Window.Ui} :
    alone answers (Window.render >>= g).run s = alone answers (g ()).run s := rfl

theorem alone_route {s : Headless.Session} :
    alone w.answer (Headless.route w.ps .auto).run s = (do
      let identity ← w.machine .getMachineIdentity
      let inv ← w.machine .getInventory
      w.machine (.saveInventory inv)
      w.machine (.formatInventorySummary inv)
      let settings ← w.machine .getZtpSettings
      let failAction ← failActionOf w.ps settings
      let policyUrl ← w.ps.read settings "policyUrl"
      let decision ← result w.answer (invokePolicyEvaluation w.ps policyUrl inv failAction)
      w.headlessRest identity settings decision) := by
  -- the session is written and never read until the script fails
  simp only [Headless.route, alone_calls_bind, alone_except_bind, alone_record_bind]
  apply bind_congr
  intro identity
  apply bind_congr
  intro inv
  apply bind_congr
  intro _
  apply bind_congr
  intro _
  apply bind_congr
  intro settings
  apply bind_congr
  intro failAction
  apply bind_congr
  intro policyUrl
  apply bind_congr
  intro decision
  cases hallow : decision.allow with
  | false =>
    simp only [World.headlessRest, hallow, Bool.not_false, if_true, Bool.false_eq_true, if_false,
      alone_calls_bind, alone_except_bind]
    rfl
  | true =>
    simp only [World.headlessRest, hallow, Bool.not_true, if_true, Bool.false_eq_true, if_false,
      alone_calls_bind, alone_except_bind, alone_keepConfig_bind]
    rfl

theorem alone_autoRoute {s : Window.Ui} {apiUrl : Json} :
    alone w.answer (Window.autoRoute w.ps identity apiUrl).run s = (do
      let inv ← w.machine .getInventory
      w.machine (.saveInventory inv)
      w.machine (.formatInventorySummary inv)
      let settings ← w.machine .getZtpSettings
      let policyUrl ← w.ps.read settings "policyUrl"
      let failAction ← failActionOf w.ps settings
      let decision ← result w.answer (invokePolicyEvaluation w.ps policyUrl inv failAction)
      return (inv, ← w.frontEndRest identity apiUrl inv decision)) := by
  simp only [Window.autoRoute, Window.showPanel, Window.setFinish, Window.record,
    alone_update_bind, alone_render_bind, alone_calls_bind, alone_except_bind]
  apply bind_congr
  intro inv
  apply bind_congr
  intro _
  apply bind_congr
  intro _
  apply bind_congr
  intro settings
  apply bind_congr
  intro policyUrl
  apply bind_congr
  intro failAction
  apply bind_congr
  intro decision
  rw [World.frontEndRest, bind_assoc]
  apply bind_congr
  intro _
  cases hallow : decision.allow with
  | false => rfl
  | true =>
    simp only [Bool.not_true, if_true, Bool.false_eq_true, if_false, alone_render_bind,
      alone_attempt_bind]
    cases result w.answer (getZtpConfig w.ps inv) with
    | error e => rfl
    | ok cfg =>
      simp only [alone_except_bind, bind_assoc]
      rfl

/-! ## Where they agree -/

/-- The machine is inventoried and the policy gives a decision on it. -/
structure World.Evaluated (w : World) (identity : Identity) (inv settings : Json)
    (decision : PolicyDecision) : Prop where
  identified : w.machine .getMachineIdentity = .ok identity
  inventoried : w.machine .getInventory = .ok inv
  saved : w.machine (.saveInventory inv) = .ok ()
  summarized : w.machine (.formatInventorySummary inv) = .ok ()
  configured : w.machine .getZtpSettings = .ok settings
  decided : ∃ failAction policyUrl, failActionOf w.ps settings = .ok failAction ∧
    w.ps.read settings "policyUrl" = .ok policyUrl ∧
    result w.answer (invokePolicyEvaluation w.ps policyUrl inv failAction) = .ok decision

/-- The machine has a config of its own that leads to zero-touch. -/
structure World.Authorized (w : World) (settings : Json) (apiUrl : String) (identity : Identity)
    (decision : PolicyDecision) : Prop where
  own : truthy (w.own apiUrl identity) = true
  readable : Readable w.ps settings (w.own apiUrl identity)
  zeroTouch : AsksZeroTouch w.ps settings (w.own apiUrl identity) decision

/-- Where the policy allows the machine and a status can be sent, both entry points come to the
same outcome if the config the headless script fetches can be read, and the api gives a machine
that is authorized the same answer with and without the inventory. Where the policy's config
cannot be applied, both fail if the front-end gets that far. -/
def World.Alike (w : World) : Prop :=
  ∀ identity inv settings decision, w.Evaluated identity inv settings decision →
    decision.allow = true → Reports w.ps settings →
      ∃ server apiUrl, addresses w.ps settings = .ok (server, apiUrl) ∧
        (Mergeable w.ps decision →
          Readable w.ps settings (w.document server apiUrl identity .null) ∧
          (w.Authorized settings apiUrl identity decision → w.allows .null = w.allows inv)) ∧
        (¬ Mergeable w.ps decision →
          Readable w.ps settings (w.document server apiUrl identity inv))

variable {inv : Json}

theorem headless_of_evaluated (h : w.Evaluated identity inv settings decision) :
    w.headless = (w.headlessRest identity settings decision).toOption := by
  obtain ⟨failAction, policyUrl, hfail, hurl, hdecision⟩ := h.decided
  rw [World.headless, alone_route]
  simp only [h.identified, h.inventoried, h.saved, h.summarized, h.configured, hfail, hurl,
    hdecision, ok_bind]

theorem evaluated_of_headless (h : w.headless = some outcome) :
    ∃ identity inv settings decision, w.Evaluated identity inv settings decision := by
  rw [World.headless, alone_route, toOption_eq_some] at h
  simp only [bind_eq_ok] at h
  obtain ⟨identity, hidentity, inv, hinv, _, hsave, _, hsummary, settings, hsettings, failAction,
    hfail, policyUrl, hurl, decision, hdecision, -⟩ := h
  exact ⟨identity, inv, settings, decision, hidentity, hinv, hsave, hsummary, hsettings,
    failAction, policyUrl, hfail, hurl, hdecision⟩

/-- The start of the front-end fails only if the machine cannot be identified. -/
theorem result_startup :
    result w.answer (Window.startup w.ps) = (do
      let identity ← w.machine .getMachineIdentity
      return (identity, orNull (w.machine .getZtpSettings >>= reportBase w.ps))) := by
  rw [Window.startup, result_bind]
  apply bind_congr
  intro identity
  rfl

theorem frontEnd_of_evaluated (h : w.Evaluated identity inv settings decision) :
    w.frontEnd = (w.frontEndRest identity (orNull (reportBase w.ps settings)) inv
      decision).toOption := by
  obtain ⟨failAction, policyUrl, hfail, hurl, hdecision⟩ := h.decided
  rw [World.frontEnd, alone_calls_bind, result_startup]
  simp only [h.identified, h.configured, ok_bind, pure_bind, alone_autoRoute, h.inventoried,
    h.saved, h.summarized, hfail, hurl, hdecision]
  cases w.frontEndRest identity (orNull (reportBase w.ps settings)) inv decision <;> rfl

theorem evaluated_of_frontEnd (h : w.frontEnd = some outcome) :
    ∃ identity inv settings decision, w.Evaluated identity inv settings decision := by
  rw [World.frontEnd, Option.map_eq_some_iff] at h
  obtain ⟨⟨inv', outcome'⟩, h, -⟩ := h
  rw [toOption_eq_some, alone_calls_bind, result_startup] at h
  simp only [bind_eq_ok, alone_autoRoute] at h
  obtain ⟨_, ⟨identity, hidentity, hbase⟩, inv, hinv, _, hsave, _, hsummary, settings, hsettings,
    policyUrl, hurl, failAction, hfail, decision, hdecision, -⟩ := h
  exact ⟨identity, inv, settings, decision, hidentity, hinv, hsave, hsummary, hsettings,
    failAction, policyUrl, hfail, hurl, hdecision⟩

/-! ### A machine that is blocked -/

/-- A status report fails only for want of an address. -/
theorem result_sendZtpStatus {base : Json} {state : DeployState} {percent : ℤ} {message : String} :
    result w.answer (sendZtpStatus w.ps base identity state percent message) =
      w.ps.bindMandatory "ServerUrl" base >>= fun _ => .ok () := by
  rw [sendZtpStatus, result_bind]
  rfl

theorem rest_of_blocked (hallow : decision.allow = false) :
    (w.headlessRest identity settings decision).toOption =
      (w.frontEndRest identity (orNull (reportBase w.ps settings)) inv decision).toOption := by
  simp only [World.headlessRest, World.frontEndRest, hallow, Bool.false_eq_true, if_false,
    result_sendZtpStatus]
  cases reportBase w.ps settings with
  | error e => rfl
  | ok base => rfl

/-! ### A machine that is allowed -/

/-- The outcome of a config that was fetched, where a failure to fetch it is caught. -/
def caught (ps : PowerShell) (decision : PolicyDecision) :
    Except Raised ZtpConfig → Option Outcome
  | .error _ => some .interactive
  | .ok cfg => (overlay ps decision cfg).toOption.map (Headless.followMode ps .auto)

theorem reports_iff : Reports w.ps settings ↔
    ∃ url, w.ps.bindMandatory "ServerUrl" (orNull (reportBase w.ps settings)) = .ok url := by
  unfold Reports
  cases reportBase w.ps settings with
  | error e =>
    constructor
    · rintro ⟨base, url, ⟨⟩, -⟩
    · rintro ⟨url, hurl⟩
      cases hurl
  | ok base =>
    constructor
    · rintro ⟨_, url, ⟨⟩, hurl⟩
      exact ⟨url, hurl⟩
    · rintro ⟨url, hurl⟩
      exact ⟨base, url, rfl, hurl⟩

theorem frontEnd_of_reports (h : w.Evaluated identity inv settings decision)
    (hallow : decision.allow = true) (hreports : Reports w.ps settings) :
    w.frontEnd = caught w.ps decision (result w.answer (getZtpConfig w.ps inv)) := by
  obtain ⟨url, hurl⟩ := reports_iff.mp hreports
  rw [frontEnd_of_evaluated h, World.frontEndRest, result_sendZtpStatus, hurl]
  simp only [hallow, if_true, ok_bind]
  cases result w.answer (getZtpConfig w.ps inv) with
  | error e => rfl
  | ok cfg => cases hoverlay : overlay w.ps decision cfg <;> simp [caught, hoverlay] <;> rfl

theorem frontEnd_of_not_reports (h : w.Evaluated identity inv settings decision)
    (hreports : ¬ Reports w.ps settings) : w.frontEnd = none := by
  rw [frontEnd_of_evaluated h, World.frontEndRest, result_sendZtpStatus]
  cases hurl : w.ps.bindMandatory "ServerUrl" (orNull (reportBase w.ps settings)) with
  | error e => rfl
  | ok url => exact absurd (reports_iff.mpr ⟨url, hurl⟩) hreports

theorem headless_of_allowed (h : w.Evaluated identity inv settings decision)
    (hallow : decision.allow = true) :
    w.headless = ((result w.answer (getZtpConfig w.ps .null) >>= overlay w.ps decision).toOption.map
      (Headless.followMode w.ps .auto)) := by
  rw [headless_of_evaluated h, World.headlessRest, if_pos hallow]
  cases result w.answer (getZtpConfig w.ps .null) with
  | error e => rfl
  | ok cfg => cases hoverlay : overlay w.ps decision cfg <;> simp [hoverlay] <;> rfl

/-- Without a config the headless script fails, and the front-end goes on. -/
theorem headless_of_error {e : Raised} (h : w.Evaluated identity inv settings decision)
    (hallow : decision.allow = true) (he : result w.answer (getZtpConfig w.ps .null) = .error e) :
    w.headless = none := by
  rw [headless_of_allowed h hallow, he]
  rfl

theorem headless_of_ok {cfg : ZtpConfig} (h : w.Evaluated identity inv settings decision)
    (hallow : decision.allow = true) (hcfg : result w.answer (getZtpConfig w.ps .null) = .ok cfg) :
    w.headless = caught w.ps decision (result w.answer (getZtpConfig w.ps .null)) := by
  rw [headless_of_allowed h hallow, hcfg]
  rfl

/-- If the policy's config can be applied, a caught failure always leaves an outcome. -/
theorem exists_caught {r : Except Raised ZtpConfig} {ps : PowerShell}
    (hmerge : Mergeable ps decision) : ∃ o, caught ps decision r = some o := by
  cases r with
  | error e => exact ⟨_, rfl⟩
  | ok cfg =>
    obtain ⟨cfg', hcfg'⟩ := (ok_overlay (c := cfg)).mpr hmerge
    exact ⟨_, by rw [caught, hcfg']; rfl⟩

theorem overlay_of_not_mergeable {ps : PowerShell} {cfg : ZtpConfig}
    (hmerge : ¬ Mergeable ps decision) : (overlay ps decision cfg).toOption = none := by
  cases hoverlay : overlay ps decision cfg with
  | error e => rfl
  | ok cfg' => exact absurd (ok_overlay.mp ⟨cfg', hoverlay⟩) hmerge

theorem followMode_eq_interactive {ps : PowerShell} {cfg : ZtpConfig} :
    Headless.followMode ps .auto cfg = .interactive ↔ ¬ goesZeroTouch ps cfg = true := by
  unfold Headless.followMode
  split_ifs with hgoes
  · simp [hgoes]
  · simp [hgoes]

section

variable (hidentity : w.machine .getMachineIdentity = .ok identity)
  (hsettings : w.machine .getZtpSettings = .ok settings)
  (haddresses : addresses w.ps settings = .ok (server, apiUrl))

include hidentity hsettings haddresses

theorem result_getZtpConfig_of_addresses :
    result w.answer (getZtpConfig w.ps inventory) =
      normalizeConfig w.ps settings server apiUrl identity
        (w.document server apiUrl identity inventory)
        (w.allows inventory && truthy (w.own apiUrl identity))
        (w.source server apiUrl identity inventory) := by
  rw [result_getZtpConfig hidentity hsettings, haddresses]
  rfl

/-- The outcome is interactive unless the api allows the inventory of an authorized machine. -/
theorem caught_eq_interactive (hmerge : Mergeable w.ps decision) :
    caught w.ps decision (result w.answer (getZtpConfig w.ps inventory)) = some .interactive ↔
      ¬ (w.allows inventory = true ∧ w.Authorized settings apiUrl identity decision) := by
  rw [result_getZtpConfig_of_addresses hidentity hsettings haddresses]
  have hown (h : (w.allows inventory && truthy (w.own apiUrl identity)) = true) :
      w.document server apiUrl identity inventory = w.own apiUrl identity := if_pos h
  cases hcfg : normalizeConfig w.ps settings server apiUrl identity
      (w.document server apiUrl identity inventory)
      (w.allows inventory && truthy (w.own apiUrl identity))
      (w.source server apiUrl identity inventory) with
  | error e =>
    refine iff_of_true rfl ?_
    rintro ⟨hallows, hauthorized⟩
    -- the config of an authorized machine can be read
    rw [hown (by rw [hallows, hauthorized.own, Bool.and_self])] at hcfg
    obtain ⟨cfg, hok⟩ := ok_normalizeConfig.mpr hauthorized.readable
    rw [hcfg] at hok
    cases hok
  | ok cfg =>
    obtain ⟨cfg', hcfg'⟩ := (ok_overlay (c := cfg)).mpr hmerge
    rw [caught, hcfg']
    change some (Headless.followMode w.ps .auto cfg') = some .interactive ↔ _
    rw [Option.some.injEq, followMode_eq_interactive, goesZeroTouch_iff hcfg hcfg', not_iff_not]
    constructor
    · rintro ⟨hserved, hasks⟩
      rw [hown hserved] at hasks hcfg
      obtain ⟨hallows, htruthy⟩ := Bool.and_eq_true_iff.mp hserved
      exact ⟨hallows, htruthy, ok_normalizeConfig.mp ⟨cfg, hcfg⟩, hasks⟩
    · rintro ⟨hallows, hauthorized⟩
      have hserved : (w.allows inventory && truthy (w.own apiUrl identity)) = true := by
        rw [hallows, hauthorized.own, Bool.and_self]
      exact ⟨hserved, hown hserved ▸ hauthorized.zeroTouch⟩

/-- The api's two answers decide whether the outcomes are the same. -/
theorem caught_eq_iff (hmerge : Mergeable w.ps decision) :
    caught w.ps decision (result w.answer (getZtpConfig w.ps .null)) =
        caught w.ps decision (result w.answer (getZtpConfig w.ps inv)) ↔
      (w.Authorized settings apiUrl identity decision → w.allows .null = w.allows inv) := by
  have hinteractive (inventory : Json) :
      caught w.ps decision (result w.answer (getZtpConfig w.ps inventory)) = some .interactive ↔
        ¬ (w.allows inventory = true ∧ w.Authorized settings apiUrl identity decision) :=
    caught_eq_interactive hidentity hsettings haddresses hmerge
  constructor
  · intro heq hauthorized
    have hnull := hinteractive .null
    rw [heq, hinteractive inv] at hnull
    simp only [hauthorized, and_true, not_iff_not] at hnull
    exact (Bool.eq_iff_iff.mpr hnull).symm
  · intro hsame
    by_cases hauthorized : w.Authorized settings apiUrl identity decision
    · -- the same document is normalized
      rw [result_getZtpConfig_of_addresses hidentity hsettings haddresses,
        result_getZtpConfig_of_addresses hidentity hsettings haddresses, World.document,
        World.document, World.source, World.source, hsame hauthorized]
    · rw [(hinteractive .null).mpr fun h => hauthorized h.2,
        (hinteractive inv).mpr fun h => hauthorized h.2]

end

/-- If the policy's config cannot be applied, the outcome of a config is none. -/
theorem caught_eq_none {r : Except Raised ZtpConfig} {ps : PowerShell} :
    caught ps decision r = none ↔ ¬ Mergeable ps decision ∧ ∃ cfg, r = .ok cfg := by
  constructor
  · intro hnone
    refine ⟨fun hmerge => ?_, ?_⟩
    · obtain ⟨o, ho⟩ := exists_caught (r := r) hmerge
      rw [hnone] at ho
      cases ho
    · cases r with
      | error e => cases hnone
      | ok cfg => exact ⟨cfg, rfl⟩
  · rintro ⟨hmerge, cfg, rfl⟩
    rw [caught, overlay_of_not_mergeable hmerge]
    rfl

theorem readable_of_ok {cfg : ZtpConfig} (h : w.Evaluated identity inv settings decision)
    (hcfg : result w.answer (getZtpConfig w.ps inventory) = .ok cfg) :
    ∃ server apiUrl, addresses w.ps settings = .ok (server, apiUrl) ∧
      Readable w.ps settings (w.document server apiUrl identity inventory) :=
  (ok_getZtpConfig h.identified h.configured).mp ⟨cfg, hcfg⟩

theorem ok_of_readable (h : w.Evaluated identity inv settings decision)
    (haddresses : addresses w.ps settings = .ok (server, apiUrl))
    (hreadable : Readable w.ps settings (w.document server apiUrl identity inventory)) :
    ∃ cfg, result w.answer (getZtpConfig w.ps inventory) = .ok cfg :=
  (ok_getZtpConfig h.identified h.configured).mpr ⟨server, apiUrl, haddresses, hreadable⟩

/-- A machine that is allowed, with a status that can be sent. -/
theorem agree_of_allowed (h : w.Evaluated identity inv settings decision)
    (hallow : decision.allow = true) (hreports : Reports w.ps settings) :
    w.headless = w.frontEnd ↔
      ∃ server apiUrl, addresses w.ps settings = .ok (server, apiUrl) ∧
        (Mergeable w.ps decision →
          Readable w.ps settings (w.document server apiUrl identity .null) ∧
          (w.Authorized settings apiUrl identity decision → w.allows .null = w.allows inv)) ∧
        (¬ Mergeable w.ps decision →
          Readable w.ps settings (w.document server apiUrl identity inv)) := by
  rw [frontEnd_of_reports h hallow hreports]
  by_cases hmerge : Mergeable w.ps decision
  · -- the front-end has an outcome, so the headless script must have its config
    simp only [hmerge, true_implies, not_true, false_implies, and_true]
    constructor
    · intro hagree
      obtain ⟨o, ho⟩ :=
        exists_caught (r := result w.answer (getZtpConfig w.ps inv)) hmerge
      cases hcfg : result w.answer (getZtpConfig w.ps .null) with
      | error e =>
        rw [headless_of_error h hallow hcfg, ho] at hagree
        cases hagree
      | ok cfg =>
        obtain ⟨server, apiUrl, haddresses, hreadable⟩ := readable_of_ok h hcfg
        rw [headless_of_ok h hallow hcfg] at hagree
        exact ⟨server, apiUrl, haddresses, hreadable,
          (caught_eq_iff h.identified h.configured haddresses hmerge).mp hagree⟩
    · rintro ⟨server, apiUrl, haddresses, hreadable, hsame⟩
      obtain ⟨cfg, hcfg⟩ := ok_of_readable h haddresses hreadable
      rw [headless_of_ok h hallow hcfg]
      exact (caught_eq_iff h.identified h.configured haddresses hmerge).mpr hsame
  · -- the headless script fails in any case
    have hnone : w.headless = none := by
      rw [headless_of_allowed h hallow]
      cases result w.answer (getZtpConfig w.ps .null) with
      | error e => rfl
      | ok cfg =>
        rw [ok_bind, overlay_of_not_mergeable hmerge]
        rfl
    simp only [hnone, hmerge, false_implies, not_false_eq_true, true_implies, true_and]
    constructor
    · intro hcaught
      obtain ⟨-, cfg, hcfg⟩ := caught_eq_none.mp hcaught.symm
      exact readable_of_ok h hcfg
    · rintro ⟨server, apiUrl, haddresses, hreadable⟩
      exact (caught_eq_none.mpr ⟨hmerge, ok_of_readable h haddresses hreadable⟩).symm

/-- Without an address for a status report neither comes to an outcome. -/
theorem agree_of_not_reports (h : w.Evaluated identity inv settings decision)
    (hallow : decision.allow = true) (hreports : ¬ Reports w.ps settings) :
    w.headless = w.frontEnd := by
  rw [frontEnd_of_not_reports h hreports]
  cases hcfg : result w.answer (getZtpConfig w.ps .null) with
  | error e => exact headless_of_error h hallow hcfg
  | ok cfg =>
    obtain ⟨server, apiUrl, haddresses, -⟩ := readable_of_ok h hcfg
    exact absurd (reports_of_addresses haddresses) hreports

def zeroTouchConfig : Json := .obj [("computerName", .str "PC"), ("mode", .str "zerotouch"),
  ("targetDisk", .str "first"), ("imageUrl", .null), ("confirmWipe", .bool false)]

def decisionBody (action : String) : Bytes :=
  PowerShell.plain.convertToJson (.obj [("result", .obj [("action", .str action)])])

/-- An engine that allows what has an inventory. -/
def inventoryEngine : Api.PolicyEngine
  | .obj [("input", .null)] => .answered 200 (decisionBody "deny")
  | _ => .answered 200 (decisionBody "allow")

/-- A machine with an inventory, whose settings hold every default. -/
def readyMachine : (c : Call) → c.Answer
  | .getMachineIdentity => .ok ⟨"S1", "S1", none, none⟩
  | .getInventory => .ok (.obj [("tpmPresent", .bool true)])
  | .getZtpSettings => .ok (.obj [("serverUrl", .str "https://deploy"),
      ("policyUrl", .str "https://opa"), ("defaults", zeroTouchConfig)])
  | .get _ => .answered 200 (PowerShell.plain.convertToJson zeroTouchConfig)
  | .postPolicy _ _ | .postResolve _ _ => .failed ""
  | .sendZtpJson _ _ | .startSleep _ => ()
  | .resolveTargetDisk _ | .launchGui => .ok 0
  | .saveInventory _ | .formatInventorySummary _ | .getDeployDisks | .invokeDeployment _
  | .beginInvoke _ _ | .reboot => .ok ()

/-- The machine is enrolled, and one engine stands behind both checks. -/
def enrolledWorld : World where
  ps := .plain
  machine := readyMachine
  opa := inventoryEngine
  outage := ""
  reaches _ := true
  lower := Char.toLower
  env := ⟨"https://opa", "hold"⟩
  P := default
  masterKey := none
  tree p :=
    if p = ["config", "machines", "S1.json"] then
      .content (PowerShell.plain.convertToJson zeroTouchConfig)
    else .missing
  ip := ""
  marshal := PowerShell.plain.convertToJson

def Outcome.isZeroTouch : Outcome → Bool
  | zeroTouch _ => true
  | _ => false

end WinDep.Deploy
