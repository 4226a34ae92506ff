/-
# Ingest

The api posts what machines report, log and resolve on to the admin, each as a
JSON object to a path of its own. The admin decodes the object and inserts a row
for a report or a resolution, and a row for every line of a log. What the api
posts decodes to what it held, unless the text is longer than the admin reads.
-/

import WinDep.Api.Resolve
import WinDep.Data.JsonText
import WinDep.Fleet.Prune

namespace WinDep.Fleet

open Json

/-! ## The bodies -/

structure LogLine where
  ts : String
  level : String
  message : String
  deriving DecidableEq

/-- A batch of log lines. A slice that is nil is the empty one here. -/
structure LogBatch where
  serial : String
  mac : String
  lines : List LogLine
  deriving DecidableEq

/-- A resolution for the audit trail. -/
structure AuditRecord where
  action : String
  category : String
  path : String
  source : String
  size : Int64
  status : Int64
  deriving DecidableEq

def LogLine.decode (l : LogLine) (ms : Members) : Option LogLine := do
  let ts ← decodeField "ts" decodeString l.ts ms
  let level ← decodeField "level" decodeString l.level ms
  let message ← decodeField "message" decodeString l.message ms
  return ⟨ts, level, message⟩

def unmarshalLine : Json → Option LogLine := decodeStruct LogLine.decode ⟨"", "", ""⟩

def LogBatch.decode (b : LogBatch) (ms : Members) : Option LogBatch := do
  let serial ← decodeField "serial" decodeString b.serial ms
  let mac ← decodeField "mac" decodeString b.mac ms
  let lines ← decodeField "lines" (fun _ => decodeSlice unmarshalLine) b.lines ms
  return ⟨serial, mac, lines⟩

def unmarshalBatch : Json → Option LogBatch := unmarshalStruct LogBatch.decode ⟨"", "", []⟩

def AuditRecord.decode (a : AuditRecord) (ms : Members) : Option AuditRecord := do
  let action ← decodeField "action" decodeString a.action ms
  let category ← decodeField "category" decodeString a.category ms
  let path ← decodeField "path" decodeString a.path ms
  let source ← decodeField "source" decodeString a.source ms
  let size ← decodeField "size" decodeInt a.size ms
  let status ← decodeField "status" decodeInt a.status ms
  return ⟨action, category, path, source, size, status⟩

def unmarshalAudit : Json → Option AuditRecord :=
  unmarshalStruct AuditRecord.decode ⟨"", "", "", "", 0, 0⟩

def LogLine.toJson (l : LogLine) : Json :=
  .obj [("ts", .str l.ts), ("level", .str l.level), ("message", .str l.message)]

def LogBatch.toJson (b : LogBatch) : Json :=
  .obj [("serial", .str b.serial), ("mac", .str b.mac),
    ("lines", .arr (b.lines.map LogLine.toJson))]

/-- The members of a map are written in the order of their keys. -/
def AuditRecord.toJson (a : AuditRecord) : Json :=
  .obj [("action", .str a.action), ("category", .str a.category), ("path", .str a.path),
    ("size", .num (.ofInt a.size.toInt)), ("source", .str a.source),
    ("status", .num (.ofInt a.status.toInt))]

theorem unmarshalLine_toJson (l : LogLine) : unmarshalLine l.toJson = some l := by
  have spells : ∀ field ∈ ["ts", "level", "message"], ∀ key ∈ ["ts", "level", "message"],
      (Spells field key ↔ field = key) := by decide
  simp [unmarshalLine, decodeStruct, LogLine.decode, LogLine.toJson, decodeField_cons, spells,
    decodeString]

theorem unmarshalBatch_toJson (b : LogBatch) : unmarshalBatch b.toJson = some b := by
  have spells : ∀ field ∈ ["serial", "mac", "lines"], ∀ key ∈ ["serial", "mac", "lines"],
      (Spells field key ↔ field = key) := by decide
  have hlines : nestingItems (b.lines.map LogLine.toJson) ≤ 1 :=
    nestingItems_le_iff.mpr (by simp [LogLine.toJson, nesting, nestingMembers])
  have hnesting : b.toJson.nesting ≤ maxNestingDepth := by
    simp only [LogBatch.toJson, nesting, nestingMembers, maxNestingDepth]
    omega
  rw [unmarshalBatch, unmarshalStruct, if_pos hnesting]
  simp [decodeStruct, LogBatch.decode, LogBatch.toJson, decodeField_cons, spells,
    decodeString, decodeSlice_arr unmarshalLine_toJson]

theorem unmarshalAudit_toJson (a : AuditRecord) : unmarshalAudit a.toJson = some a := by
  have spells : ∀ field ∈ ["action", "category", "path", "source", "size", "status"],
      ∀ key ∈ ["action", "category", "path", "source", "size", "status"],
        (Spells field key ↔ field = key) := by decide
  have hnesting : a.toJson.nesting ≤ maxNestingDepth := by
    simp [AuditRecord.toJson, nesting, nestingMembers, maxNestingDepth]
  rw [unmarshalAudit, unmarshalStruct, if_pos hnesting]
  simp [decodeStruct, AuditRecord.decode, AuditRecord.toJson, decodeField_cons, spells,
    decodeString, decodeInt_ofInt]

/-! ## What is forwarded -/

/-- What `forwardIngest` is called with. -/
inductive Payload
  | status (r : StatusReport)
  | log (b : LogBatch)
  | audit (a : AuditRecord)
  deriving DecidableEq

/-- The handlers of the admin that take forwards. -/
inductive IngestPath
  | status
  | log
  | audit

def Payload.path : Payload → IngestPath
  | status _ => .status
  | log _ => .log
  | audit _ => .audit

def Payload.toJson : Payload → Json
  | status r => r.toJson
  | log b => b.toJson
  | audit a => a.toJson

/-- A request of a machine that the api takes. -/
inductive MachineRequest
  | report (body : Json)
  | log (body : Json)
  /-- a resolution that was recorded -/
  | resolve (record : Api.ResolveRecord)

/-- The forward a request causes. A body that does not decode is answered 400 and causes none. -/
def MachineRequest.payload? : MachineRequest → Option Payload
  | report body => (handleReport body).map .status
  | log body => (unmarshalBatch body).map .log
  | resolve r =>
    some (.audit ⟨"ztp-resolve", "config", r.serial, r.ip, 0, Int64.ofNat r.status⟩)

/-! ## What is inserted -/

/-- A row to be inserted, but for the time of the insertion. -/
inductive Insertion
  | status (r : StatusReport)
  | line (serial mac : String) (l : LogLine)
  | audit (a : AuditRecord)
  deriving DecidableEq

/-- The call of the store. -/
def Insertion.op (now : String) : Insertion → Op
  | status r => .addStatus now r
  | line serial mac l => .addLog now serial mac l.level l.message l.ts
  | audit a => .addAudit now a.action a.category a.path a.source a.size a.status

/-- `1<<20` -/
def maxIngestBody : ℕ := 2 ^ 20

/-- `readJSON`. A text that is cut off at the limit ends inside its object, and is no JSON. -/
def readJSON {α : Type} (unmarshal : Json → Option α) (body : Json) : Option α :=
  if (Utf8.encode (compact true body)).length ≤ maxIngestBody then unmarshal body else none

/-- The rows a handler sets out to insert, in order. It answers 400 where there is nothing to
decode. -/
def handleIngest (path : IngestPath) (body : Json) : Option (List Insertion) :=
  match path with
  | .status => (readJSON unmarshalReport body).map fun r => [.status r]
  | .log => (readJSON unmarshalBatch body).map fun b => b.lines.map (.line b.serial b.mac)
  | .audit => (readJSON unmarshalAudit body).map fun a => [.audit a]

/-- The rows a forward is meant for. -/
def Payload.insertions : Payload → List Insertion
  | status r => [.status r]
  | log b => b.lines.map (.line b.serial b.mac)
  | audit a => [.audit a]

/-- The text of the payload is no longer than the admin reads. -/
def Payload.Fits (p : Payload) : Prop :=
  (Utf8.encode (compact true p.toJson)).length ≤ maxIngestBody

instance (p : Payload) : Decidable p.Fits := inferInstanceAs (Decidable (_ ≤ _))

theorem readJSON_toJson {α : Type} {unmarshal : Json → Option α} {a : α} (p : Payload)
    (h : unmarshal p.toJson = some a) :
    readJSON unmarshal p.toJson = if p.Fits then some a else none := by
  rw [readJSON, h]
  exact if_congr Iff.rfl rfl rfl

/-- The admin sets out to insert what the forward is meant for, or refuses it. -/
theorem handleIngest_payload (p : Payload) :
    handleIngest p.path p.toJson = if p.Fits then some p.insertions else none := by
  cases p with
  | status r =>
    have hread := readJSON_toJson (.status r) (unmarshalReport_toJson r)
    simp only [handleIngest, Payload.path, hread, Payload.insertions, apply_ite (Option.map _),
      Option.map_some, Option.map_none]
  | log b =>
    have hread := readJSON_toJson (.log b) (unmarshalBatch_toJson b)
    simp only [handleIngest, Payload.path, hread, Payload.insertions, apply_ite (Option.map _),
      Option.map_some, Option.map_none]
  | audit a =>
    have hread := readJSON_toJson (.audit a) (unmarshalAudit_toJson a)
    simp only [handleIngest, Payload.path, hread, Payload.insertions, apply_ite (Option.map _),
      Option.map_some, Option.map_none]

/-- The row of a call, without the time. -/
def Op.insertion? : Op → Option Insertion
  | .addStatus _ r => some (.status r)
  | .addLog _ serial mac level message ts => some (.line serial mac ⟨ts, level, message⟩)
  | .addAudit _ action category path source size status =>
    some (.audit ⟨action, category, path, source, size, status⟩)
  | .prune _ => none

@[simp] theorem Insertion.insertion?_op (now : String) (i : Insertion) :
    (i.op now).insertion? = some i := by
  cases i <;> rfl

end WinDep.Fleet
