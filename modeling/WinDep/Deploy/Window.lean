/-
# The front-end

`DeployUI.ps1` shows one panel at a time. On its first rendering it inventories
the machine, asks the policy and routes; buttons and timers can start a
deployment later. The handlers of the events are scripts that share the window,
and the loop takes other events only where a handler pumps the dispatcher.
-/

import WinDep.Deploy.Headless

namespace WinDep.Deploy

open Json Program Handler

namespace Window

inductive Panel
  | mode
  | config
  | progress
  | policy
  deriving DecidableEq

inductive Button
  | interactive
  | zeroTouch
  | back
  | deploy
  | finish
  | policyExit
  | recheck
  | quit
  deriving DecidableEq

/-- The panel a button lies on; the footer is always there. -/
def Button.panel : Button → Option Panel
  | interactive | zeroTouch => some .mode
  | back | deploy => some .config
  | finish => some .progress
  | policyExit | recheck => some .policy
  | quit => none

/-- A zero-touch countdown that runs, with what it will start. -/
structure Countdown where
  plan : Plan
  apiUrl : String

structure Ui where
  panel : Panel
  /-- the visibility of `BtnFinish` -/
  finish : Bool
  /-- whether the content of `BtnFinish` offers a reboot -/
  reboots : Bool
  autoRouted : Bool
  countdowns : List Countdown
  /-- the timers that wait for a deployment to end -/
  pumps : ℕ
  rebootTimer : Bool
  closed : Bool
  history : List Action

/-- The window before it is rendered. -/
def Ui.opened : Ui := ⟨.progress, false, true, false, [], 0, false, false, []⟩

/-- A button can be clicked. -/
def Ui.offers (ui : Ui) (b : Button) : Bool :=
  !ui.closed && (b.panel.isNone || b.panel == some ui.panel) && (b != .finish || ui.finish)

/-- What the operator entered on the config panel. -/
structure Form where
  disk : Option ℤ
  name : String
  adminPass : String
  unattend : Bool
  confirm : String

/-- What the variables of a timer's handler hold when it ticks. The handler names variables of the
function that made the timer, and a counter of the script. -/
structure TickScope where
  secs : Option ℤ
  locals : Bool

/-- How a deployment stands. -/
inductive Progress
  | working
  | done
  | failed

inductive Event
  | contentRendered
  | click (b : Button) (form : Form)
  | countdownTick (i : ℕ) (scope : TickScope)
  | pumpTick (locals : Bool) (progress : Progress)
  | rebootTick
  | closing

/-- A change of the window. -/
def update (f : Ui → Ui) : Script Ui Unit := do
  let _ ← ExceptT.lift (change f)

def record (a : Action) : Script Ui Unit :=
  update fun ui => { ui with history := ui.history ++ [a] }

def showPanel (p : Panel) : Script Ui Unit := update fun ui => { ui with panel := p }

def setFinish (visible : Bool) : Script Ui Unit := update fun ui => { ui with finish := visible }

/-- `$win.Dispatcher.Invoke` at render priority -/
def render : Script Ui Unit := .lift pump

def trimString (s : String) : String :=
  String.ofList ((s.toList.dropWhile isWhiteSpace).rdropWhile isWhiteSpace)

section

variable (ps : PowerShell) (identity : Identity)

/-- The deployment is entered once its arguments are bound. -/
def startDeploymentWorker (plan : Plan) (serverUrl : Json) : Script Ui Unit := do
  let serverUrl ← ps.bindString "ServerUrl" serverUrl
  record (.entered plan)
  showPanel .progress
  setFinish false
  beginInvoke plan serverUrl
  update fun ui => { ui with pumps := ui.pumps + 1 }
where
  beginInvoke (plan : Plan) (serverUrl : String) : Calls Unit :=
    .mk (perform (Call.beginInvoke plan serverUrl))

/-- The plan of the form, with the texts of its refusals. -/
def newInteractivePlan (form : Form) : Except Raised Plan :=
  match form.disk with
  | none => throw (.thrown "Select a disk.")
  | some disk =>
    let entered := trimString form.name
    let name := if entered = "" then "WKS-" ++ identity.sanitizedSerial else entered
    if !form.unattend then return ⟨disk, .str name, .null, none, []⟩
    else if form.adminPass = "" then
      throw (.thrown ("Enter a local admin password (required for unattend), or uncheck " ++
        "\x27Apply unattend\x27."))
    else
      return ⟨disk, .str name, .null, some "unattend.template.xml", [
        ("COMPUTERNAME", .str name), ("TIMEZONE", .str "Eastern Standard Time"),
        ("LOCALADMINUSER", .str "localadmin"), ("LOCALADMINPASS", .str form.adminPass),
        ("JOINDOMAIN", .str ""), ("DOMAINOU", .str ""), ("DOMAINUSER", .str ""),
        ("DOMAINPASS", .str ""), ("SERIAL", .str identity.sanitizedSerial)]⟩

def showPolicyBlocked (inv : Json) : Script Ui Unit := do
  formatInventorySummary inv
  showPanel .policy

/-- Resolve the disk and count down, with the config that was fetched before if there is one. -/
def startZeroTouch (config : Option ZtpConfig) : Script Ui Unit := do
  showPanel .progress
  let fetched ← match config with
    | some cfg => pure (.ok cfg)
    | none => attempt (getZtpConfig ps .null : Calls ZtpConfig)
  match fetched with
  -- the progress panel stays, and nothing was started
  | .error _ => return ()
  | .ok cfg =>
    let disk ← resolveTargetDisk cfg.diskRule
    let plan : Plan := ⟨disk, cfg.computerName, cfg.imageUrl, some "unattend.template.xml",
      cfg.unattend⟩
    update fun ui => { ui with countdowns := ui.countdowns ++ [⟨plan, cfg.apiUrl⟩] }

/-- What is set up before the window opens: the identity, and where reports go, which is nowhere if
the settings cannot be read. -/
def startup : Calls (Identity × Json) := do
  let identity ← getMachineIdentity
  let settings ← .lift getZtpSettings.run
  return (identity, orNull (settings >>= reportBase ps))

/-- The route of the machine, with its inventory. -/
def autoRoute (apiUrl : Json) : Script Ui (Json × Outcome) := do
  showPanel .progress
  setFinish false
  -- the inventory
  render
  let inv ← getInventory
  saveInventory inv
  formatInventorySummary inv
  -- the gate
  let settings ← getZtpSettings
  render
  let policyUrl ← ps.read settings "policyUrl"
  let failAction ← failActionOf ps settings
  let decision ← invokePolicyEvaluation ps policyUrl inv failAction
  record (.evaluated decision)
  sendZtpStatus ps apiUrl identity (if decision.allow then .progress else .failed) 0
    (policyMessage decision)
  if !decision.allow then return (inv, .blocked decision)
  else
    -- the config and the route
    render
    match ← attempt (getZtpConfig ps inv : Calls ZtpConfig) with
    | .error _ => return (inv, .interactive)
    | .ok cfg =>
      let cfg ← overlay ps decision cfg
      return (inv, if goesZeroTouch ps cfg then .zeroTouch cfg else .interactive)

def startAutoRoute (apiUrl : Json) : Script Ui Unit := do
  let (inv, outcome) ← autoRoute ps identity apiUrl
  match outcome with
  | .blocked _ => showPolicyBlocked inv
  | .zeroTouch cfg => startZeroTouch ps (some cfg)
  | .interactive =>
    getDeployDisks
    showPanel .config

/-! ## Handlers -/

def close : Script Ui Unit := update fun ui => { ui with closed := true }

def reboot : Calls Unit := .mk (perform Call.reboot)

/-- What a click on a button does. -/
def onClick (apiUrl : Json) (form : Form) (ui : Ui) : Button → Script Ui Unit
  | .interactive => do
    getDeployDisks
    showPanel .config
  | .zeroTouch => startZeroTouch ps none
  | .back => showPanel .mode
  | .quit | .policyExit => close
  | .recheck => startAutoRoute ps identity apiUrl
  | .deploy => do
    if ps.eq (ps.toUpper (trimString form.confirm)) "ERASE" then
      -- an error is shown in the status bar
      let _ ← attempt do
        let plan ← newInteractivePlan identity form
        startDeploymentWorker ps plan apiUrl
    else return ()
  | .finish =>
    if ui.reboots then do
      update fun ui => { ui with rebootTimer := false }
      reboot
    else close

/-- A second of a countdown; at zero it starts its deployment. -/
def onCountdownTick (i : ℕ) (scope : TickScope) (ui : Ui) : Script Ui Unit :=
  match ui.countdowns[i]?, scope.secs with
  | none, _ => return ()
  -- the tick counts a variable of the script, where the function set one of its own
  | some _, none => throw (.property "secs")
  | some countdown, some secs =>
    if 0 < secs - 1 then return ()
    else if !scope.locals then throw (.property "cd")
    else do
      update fun ui => { ui with countdowns := ui.countdowns.eraseIdx i }
      startDeploymentWorker ps countdown.plan (.str countdown.apiUrl)

/-- The end of a deployment is shown, and a reboot offered if it succeeded. -/
def onPumpTick (locals : Bool) (progress : Progress) (ui : Ui) : Script Ui Unit :=
  if ui.pumps = 0 then return ()
  -- the log is shipped with variables of the function that made the timer
  else if !locals then throw (.property "ServerUrl")
  else
    let ended (ok : Bool) : Script Ui Unit := update fun ui => { ui with
      pumps := ui.pumps - 1, finish := true, reboots := ok, rebootTimer := ok || ui.rebootTimer }
    match progress with
    | .working => return ()
    | .done => ended true
    | .failed => ended false

/-- The script of an event. -/
def onEvent (apiUrl : Json) (e : Event) (ui : Ui) : Script Ui Unit :=
  match e with
  | .contentRendered =>
    if ui.autoRouted then return ()
    else do
      update fun ui => { ui with autoRouted := true }
      startAutoRoute ps identity apiUrl
  | .click b form =>
    if ui.offers b then onClick ps identity apiUrl form ui b else return ()
  | .countdownTick i scope => onCountdownTick ps i scope ui
  | .pumpTick locals progress => onPumpTick locals progress ui
  | .rebootTick => if ui.rebootTimer then reboot else return ()
  | .closing => close

/-- An error ends the handler. Whether it also closes the window is left to the next event. -/
def handler (apiUrl : Json) (e : Event) (ui : Ui) : Handler Ui Call.Answer Unit := do
  let _ ← (onEvent ps identity apiUrl e ui).run

end

end Window

end WinDep.Deploy
