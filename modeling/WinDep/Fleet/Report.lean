/-
# Status reports

A machine reports its state to the api as a JSON object. The api decodes the
report, gives a report without a serial one, and posts it on to the admin, which
decodes it once more. A report of the agent arrives with the serial and the state
the machine sent.
-/

import WinDep.Data.JsonStruct

namespace WinDep.Fleet

open Json

/-- `StatusReport`, the same struct in the api and in the admin. -/
structure StatusReport where
  serial : String
  mac : String
  state : String
  percent : Int64
  message : String
  model : String
  deriving DecidableEq

def StatusReport.empty : StatusReport := ⟨"", "", "", 0, "", ""⟩

def StatusReport.decode (r : StatusReport) (ms : Members) : Option StatusReport := do
  let serial ← decodeField "serial" decodeString r.serial ms
  let mac ← decodeField "mac" decodeString r.mac ms
  let state ← decodeField "state" decodeString r.state ms
  let percent ← decodeField "percent" decodeInt r.percent ms
  let message ← decodeField "message" decodeString r.message ms
  let model ← decodeField "model" decodeString r.model ms
  return ⟨serial, mac, state, percent, message, model⟩

/-- `json.Unmarshal` into a report. -/
def unmarshalReport (v : Json) : Option StatusReport :=
  unmarshalStruct StatusReport.decode .empty v

/-- `json.Marshal` of a report. -/
def StatusReport.toJson (r : StatusReport) : Json :=
  .obj [("serial", .str r.serial), ("mac", .str r.mac), ("state", .str r.state),
    ("percent", .num (.ofInt r.percent.toInt)), ("message", .str r.message),
    ("model", .str r.model)]

/-- The report a machine's post amounts to at the api, which forwards it; nothing if the post is
answered 400. -/
def handleReport (body : Json) : Option StatusReport :=
  (unmarshalReport body).map fun r => if r.serial = "" then { r with serial := "unknown" } else r

/-! ## What the agent sends -/

/-- The states `Send-ZtpStatus` permits. -/
inductive AgentState
  | started
  | progress
  | succeeded
  | failed
  deriving DecidableEq, Repr

def AgentState.name : AgentState → String
  | started => "started"
  | progress => "progress"
  | succeeded => "succeeded"
  | failed => "failed"

/-- What `Get-MachineIdentity` finds out. A machine without a serial of its own is `UNKNOWN`. -/
structure MachineIdentity where
  serial : String
  mac : Option String
  model : Option String
  serial_ne : serial ≠ ""

def sampleIdentity : MachineIdentity := ⟨"SN-1", none, none, by decide⟩

/-- A PowerShell value that may be null. -/
def jsonOfString? : Option String → Json
  | none => .null
  | some s => .str s

/-- The body `Send-ZtpStatus` posts. -/
def sendZtpStatus (identity : MachineIdentity) (state : AgentState) (percent : Int32)
    (message : String) : Json :=
  .obj [("serial", .str identity.serial), ("mac", jsonOfString? identity.mac),
    ("state", .str state.name), ("percent", .num (.ofInt percent.toInt)),
    ("message", .str message), ("model", jsonOfString? identity.model)]

/-! ## What arrives -/

@[simp] theorem decodeString_jsonOfString? (s : Option String) :
    decodeString "" (jsonOfString? s) = some (s.getD "") := by
  cases s <;> rfl

@[simp] theorem nesting_jsonOfString? (s : Option String) : (jsonOfString? s).nesting = 0 := by
  cases s <;> rfl

/-- A body whose members are named as the fields are, each decoded on its own. -/
theorem unmarshalReport_obj {serial mac state percent message model : Json}
    (h : (Json.obj [("serial", serial), ("mac", mac), ("state", state), ("percent", percent),
      ("message", message), ("model", model)]).nesting ≤ maxNestingDepth) :
    unmarshalReport (.obj [("serial", serial), ("mac", mac), ("state", state),
      ("percent", percent), ("message", message), ("model", model)]) = (do
        let serial ← decodeString "" serial
        let mac ← decodeString "" mac
        let state ← decodeString "" state
        let percent ← decodeInt 0 percent
        let message ← decodeString "" message
        let model ← decodeString "" model
        return ⟨serial, mac, state, percent, message, model⟩) := by
  have spells : ∀ field ∈ ["serial", "mac", "state", "percent", "message", "model"],
      ∀ key ∈ ["serial", "mac", "state", "percent", "message", "model"],
        (Spells field key ↔ field = key) := by decide
  simp [unmarshalReport, unmarshalStruct, h, decodeStruct, StatusReport.decode,
    StatusReport.empty, decodeField_cons, spells]

theorem unmarshalReport_toJson (r : StatusReport) : unmarshalReport r.toJson = some r := by
  rw [StatusReport.toJson, unmarshalReport_obj (by simp [nesting, nestingMembers,
    maxNestingDepth]), decodeInt_ofInt]
  rfl

/-- A report of the agent is forwarded with the machine's serial and state. -/
theorem handleReport_sendZtpStatus (identity : MachineIdentity) (state : AgentState)
    (percent : Int32) (message : String) :
    handleReport (sendZtpStatus identity state percent message) =
      some ⟨identity.serial, identity.mac.getD "", state.name, percent.toInt64, message,
        identity.model.getD ""⟩ := by
  have hpercent : decodeInt 0 (.num (.ofInt percent.toInt)) = some percent.toInt64 := by
    rw [← Int32.toInt_toInt64, decodeInt_ofInt]
  have hnesting : (sendZtpStatus identity state percent message).nesting ≤ maxNestingDepth := by
    simp [sendZtpStatus, nesting, nestingMembers, maxNestingDepth]
  rw [handleReport, sendZtpStatus, unmarshalReport_obj hnesting, hpercent]
  simp only [decodeString_jsonOfString?]
  simp [decodeString, identity.serial_ne]

end WinDep.Fleet
