/-
# The calls of the deployment scripts

What the scripts ask of the machine, of the servers and of the engine. A call
may be answered in any way. A script that fails stops at the error; a script of
the front-end shares the state of the window with the handlers of other events.
-/

import WinDep.Data.EventLoop
import WinDep.Deploy.PowerShell

namespace WinDep.Deploy

open Json Program

/-- What `Get-MachineIdentity` finds. -/
structure Identity where
  serial : String
  sanitizedSerial : String
  mac : Option String
  model : Option String

/-- The plan of `Invoke-Deployment`. -/
structure Plan where
  diskIndex : ℤ
  computerName : Json
  imageUrl : Json
  unattendTemplate : Option String
  unattendValues : Members

/-- What an HTTP request gives: no answer, or a status and a body. -/
inductive HttpAnswer
  | failed (message : String)
  | answered (status : ℕ) (body : Bytes)

/-- `IsSuccessStatusCode` -/
def isSuccess (status : ℕ) : Bool := 200 ≤ status && status < 300

inductive Call
  | getMachineIdentity
  | getInventory
  | saveInventory (inventory : Json)
  | formatInventorySummary (inventory : Json)
  /-- `Get-ZtpSettings` -/
  | getZtpSettings
  | postPolicy (url : String) (body : Json)
  | postResolve (uri : String) (body : Bytes)
  | get (uri : String)
  /-- `Send-ZtpJson`, which never fails -/
  | sendZtpJson (uri : String) (body : Json)
  | getDeployDisks
  | resolveTargetDisk (rule : Json)
  | launchGui
  | startSleep (seconds : ℕ)
  | invokeDeployment (plan : Plan)
  /-- the runspace of `Start-DeploymentWorker` -/
  | beginInvoke (plan : Plan) (serverUrl : String)
  | reboot

/-- What a call is answered. -/
@[reducible] def Call.Answer : Call → Type
  | getMachineIdentity => Except Raised Identity
  | getInventory | getZtpSettings => Except Raised Json
  | postPolicy _ _ | postResolve _ _ | get _ => HttpAnswer
  | resolveTargetDisk _ => Except Raised ℤ
  | launchGui => Except Raised ℤ
  | sendZtpJson _ _ | startSleep _ => Unit
  | _ => Except Raised Unit

/-- A script that only calls. -/
abbrev Calls := ExceptT Raised (Program Call.Answer)

/-- A script that shares a state. -/
abbrev Script (σ : Type) := ExceptT Raised (Handler σ Call.Answer)

def getMachineIdentity : Calls Identity := .mk (perform Call.getMachineIdentity)

def getInventory : Calls Json := .mk (perform Call.getInventory)

def saveInventory (inventory : Json) : Calls Unit := .mk (perform (Call.saveInventory inventory))

def formatInventorySummary (inventory : Json) : Calls Unit :=
  .mk (perform (Call.formatInventorySummary inventory))

def getZtpSettings : Calls Json := .mk (perform Call.getZtpSettings)

def getDeployDisks : Calls Unit := .mk (perform Call.getDeployDisks)

/-- The rule is a mandatory parameter. -/
def resolveTargetDisk (rule : Json) : Calls ℤ :=
  if isNull rule then throw (.parameter "Rule") else .mk (perform (Call.resolveTargetDisk rule))

/-- A call that does not fail. -/
def tell (c : Call) : Calls c.Answer := .lift (perform c)

end WinDep.Deploy
