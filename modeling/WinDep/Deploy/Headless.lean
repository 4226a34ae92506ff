/-
# The headless script

`Invoke-Deploy.ps1` inventories the machine, asks the policy, fetches the config
and routes, and on the zero-touch route plans and deploys. The session keeps the
config for the report of a failure, and a record of what was evaluated and what
was deployed.
-/

import WinDep.Deploy.Config

namespace WinDep.Deploy

open Json Program Handler

/-- What a run is judged by: the decisions of the policy and the deployments entered. -/
inductive Action
  | evaluated (decision : PolicyDecision)
  | entered (plan : Plan)

/-- Where a machine is routed. -/
inductive Outcome
  | blocked (decision : PolicyDecision)
  | zeroTouch (cfg : ZtpConfig)
  | interactive

namespace Headless

inductive Mode
  | auto
  | zerotouch
  | interactive

structure Session where
  cfg : Option ZtpConfig
  history : List Action

def Session.started : Session := ⟨none, []⟩

def record (a : Action) : Script Session Unit := do
  let _ ← ExceptT.lift (change fun s => { s with history := s.history ++ [a] })

def keepConfig (cfg : ZtpConfig) : Script Session Unit := do
  let _ ← ExceptT.lift (change fun s => { s with cfg := some cfg })

section

variable (ps : PowerShell)

/-- Where a mode leads: in auto mode a config of the machine's own authorizes zero-touch. -/
def followMode (mode : Mode) (cfg : ZtpConfig) : Outcome :=
  match mode with
  | .auto => if goesZeroTouch ps cfg then .zeroTouch cfg else .interactive
  | .zerotouch => .zeroTouch cfg
  | .interactive => .interactive

/-- The script until the machine is routed. -/
def route (mode : Mode) : Script Session Outcome := do
  let identity ← getMachineIdentity
  let inv ← getInventory
  saveInventory inv
  formatInventorySummary inv
  let settings ← getZtpSettings
  let failAction ← failActionOf ps settings
  let policyUrl ← ps.read settings "policyUrl"
  let decision ← invokePolicyEvaluation ps policyUrl inv failAction
  record (.evaluated decision)
  if !decision.allow then
    let apiBase ← reportBase ps settings
    sendZtpStatus ps apiBase identity .failed 0 (policyMessage decision)
    return .blocked decision
  else
    -- the inventory is not passed on
    let cfg ← getZtpConfig ps .null
    keepConfig cfg
    let cfg ← overlay ps decision cfg
    keepConfig cfg
    return followMode ps mode cfg

/-- The countdown, one second at a time. -/
def countdown : ℕ → Calls Unit
  | 0 => return ()
  | n + 1 => do
    tell (.startSleep 1)
    countdown n

/-- The deployment, whose reports of progress are left to the engine, and the reboot. -/
def erase (plan : Plan) (cfg : ZtpConfig) : Script Session ℤ := do
  sendZtpStatus ps (.str cfg.apiUrl) cfg.identity .started 0 "Headless deploy begin"
  record (.entered plan)
  invokeDeployment plan
  sendZtpStatus ps (.str cfg.apiUrl) cfg.identity .succeeded 100 "Complete"
  tell (.startSleep 10)
  reboot
  return 0
where
  invokeDeployment (plan : Plan) : Calls Unit := .mk (perform (Call.invokeDeployment plan))
  reboot : Calls Unit := .mk (perform Call.reboot)

/-- The zero-touch deployment and its exit code. -/
def deploy (countdownSeconds : ℤ) (force whatIf : Bool) (cfg : ZtpConfig) : Script Session ℤ := do
  let disk ← resolveTargetDisk cfg.diskRule
  -- the summary of the plan names the domain
  if !containsKey ps "JOINDOMAIN" cfg.unattend then throw (.property "JOINDOMAIN")
  else if whatIf then return 0
  else
    -- the only way to stop the countdown is to end the session
    if !force then countdown countdownSeconds.toNat
    erase ps ⟨disk, cfg.computerName, cfg.imageUrl, some "unattend.template.xml", cfg.unattend⟩ cfg

/-- The body of the script. -/
def body (mode : Mode) (countdownSeconds : ℤ) (force whatIf : Bool) : Script Session ℤ := do
  match ← route ps mode with
  -- no disk was touched
  | .blocked _ => return 2
  | .interactive => launchGui
  | .zeroTouch cfg => deploy ps countdownSeconds force whatIf cfg
where
  launchGui : Calls ℤ := .mk (perform Call.launchGui)

/-- Report a failure to the api of the config, if there is one yet. -/
def reportFailure (message : String) : Script Session Unit := do
  let s ← ExceptT.lift (change id)
  match s.cfg with
  -- strict mode does not read a field of a config that was never fetched
  | none => throw (.property "Identity")
  | some cfg => sendZtpStatus ps (.str cfg.apiUrl) cfg.identity .failed 0 message

/-- The script, to its exit code. -/
def invokeDeploy (mode : Mode) (countdownSeconds : ℤ) (force whatIf : Bool) :
    Handler Session Call.Answer ℤ := do
  match ← (body ps mode countdownSeconds force whatIf).run with
  | .ok code => return code
  | .error e =>
    -- a report that fails is swallowed
    let _ ← (reportFailure ps (ps.message e)).run
    return 1

/-- The only event of the script is its start. -/
def handler (mode : Mode) (countdownSeconds : ℤ) (force whatIf : Bool) (_ : Unit) (_ : Session) :
    Handler Session Call.Answer Unit := do
  let _ ← invokeDeploy ps mode countdownSeconds force whatIf

end

end Headless

end WinDep.Deploy
