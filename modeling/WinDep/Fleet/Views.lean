/-
# The views of the store

The logs tab asks for the newest events, of all machines or of one, and the audit
tab for the newest entries of the trail. A table is what pruning has left of the
calls of the store, and a view never shows more than the calls. It misses an
event only if a pruning kept fewer rows than are newer than the event.
-/

import WinDep.Fleet.Prune
import WinDep.Upload.Handlers

namespace WinDep.Fleet

open Latest Runs

/-! ## The handlers -/

/-- A number of the query string between 1 and `max`. What is no positive number counts as not
given. -/
def queryInt (text : String) (dflt max : ℕ) : ℕ :=
  match Admin.parseInt text.toList with
  | none => dflt
  | some n => if n ≤ 0 then dflt else if (max : ℤ) < n then max else n.toNat

def Kind.name : Kind → String
  | status => "status"
  | log => "log"

/-- An event as it is sent to the browser. Null is sent as the empty string or zero. -/
structure ShownEvent where
  ts : String
  kind : String
  serial : String
  mac : String
  state : String
  percent : Int64
  message : String
  model : String
  level : String
  deriving DecidableEq

def DeployEvent.shown (e : DeployEvent) : ShownEvent :=
  ⟨e.ts, e.kind.name, e.serial.getD "", e.mac.getD "", e.state.getD "", e.percent.getD 0,
    e.message.getD "", e.model.getD "", e.level.getD ""⟩

/-- An entry of the trail as it is sent to the browser. -/
structure ShownEntry where
  ts : String
  action : String
  category : String
  path : String
  source : String
  size : Int64
  status : Int64
  deriving DecidableEq

def AuditEvent.shown (e : AuditEvent) : ShownEntry :=
  ⟨e.ts, e.action, e.category, e.path, e.source, e.size, e.status⟩

/-- The most recent events, newest first. The empty serial asks for all machines. -/
def Store.deployEvents (serial : String) (limit : ℕ) (st : Store) : List ShownEvent :=
  (newestRows DeployEvent.id limit
    (if serial = "" then st.rows else st.rows.filter fun e => e.serial = some serial)).map
      DeployEvent.shown

def Database.auditEntries (limit : ℕ) (db : Database) : List ShownEntry :=
  (newestRows AuditEvent.id limit db.audit).map AuditEvent.shown

/-- The query string of the logs tab. A parameter that is not given is empty. -/
structure LogQuery where
  serial : String
  limit : String

def LogQuery.rows (q : LogQuery) : ℕ := queryInt q.limit 200 2000

/-- The query asks for the event. -/
def LogQuery.asksFor (q : LogQuery) (e : ShownEvent) : Bool := q.serial = "" || e.serial = q.serial

def handleLogs (q : LogQuery) (db : Database) : List ShownEvent :=
  db.events.deployEvents q.serial q.rows

def handleAudit (limit : String) (db : Database) : List ShownEntry :=
  db.auditEntries (queryInt limit 200 2000)

/-! ## What the calls logged -/

/-- The event of a call. -/
def Op.event? : Op → Option ShownEvent
  | .addStatus now r =>
    some ⟨now, Kind.status.name, r.serial, r.mac, r.state, r.percent, r.message, r.model, ""⟩
  | .addLog now serial mac level message ts =>
    some ⟨if ts = "" then now else ts, Kind.log.name, serial, mac, "", 0, message, "", level⟩
  | _ => none

/-- The entry of a call. -/
def Op.entry? : Op → Option ShownEntry
  | .addAudit now action category path source size status =>
    some ⟨now, action, category, path, source, size, status⟩
  | _ => none

/-- The events of a run, in the order of the calls. -/
def events (ops : List Op) : List ShownEvent := ops.filterMap Op.event?

def entries (ops : List Op) : List ShownEntry := ops.filterMap Op.entry?

/-- A pruning keeps at least `m` rows. -/
def Op.Keeps (m : ℕ) : Op → Prop
  | .prune maxRows => m ≤ maxRows
  | _ => True

/-! ## The tables of a run -/

variable {ops : List Op} {m : ℕ}

theorem rows_addStatus (st : Store) (now : String) (r : StatusReport) :
    (st.addStatus now r).rows = st.rows ++ [Store.statusEvent st.nextId now r] := rfl

theorem rows_addLog (st : Store) (now serial mac level message ts : String) :
    (st.addLog now serial mac level message ts).rows =
      st.rows ++ [Store.logEvent st.nextId now serial mac level message ts] := rfl

theorem events_concat (op : Op) : events (ops ++ [op]) = events ops ++ op.event?.toList := by
  rw [events, List.filterMap_append]
  cases op <;> rfl

theorem entries_concat (op : Op) : entries (ops ++ [op]) = entries ops ++ op.entry?.toList := by
  rw [entries, List.filterMap_append]
  cases op <;> rfl

theorem keeps_concat {op : Op} (h : ∀ op' ∈ ops ++ [op], op'.Keeps m) :
    (∀ op' ∈ ops, op'.Keeps m) ∧ op.Keeps m :=
  ⟨fun op' hop' => h op' (List.mem_append_left _ hop'),
    h op (List.mem_append_right _ (List.mem_singleton_self op))⟩

/-- The events left are a cut of the events of the calls. -/
theorem cut_events (h : ∀ op ∈ ops, op.Keeps m) :
    Cut m (events ops) ((Database.after ops).events.rows.map DeployEvent.shown) := by
  induction ops using List.reverseRecOn with
  | nil => exact Cut.refl m []
  | append_singleton ops op ih =>
    obtain ⟨hops, hop⟩ := keeps_concat h
    have ih := ih hops
    rw [after_concat, events_concat]
    cases op with
    | addStatus now r =>
      rw [Database.step, rows_addStatus, List.map_append]
      exact ih.concat _
    | addLog now serial mac level message ts =>
      rw [Database.step, rows_addLog, List.map_append]
      exact ih.concat _
    | addAudit => exact (List.append_nil (events ops)).symm ▸ ih
    | prune maxRows =>
      have hcut := ih.drop hop
      rw [List.length_map, ← List.map_drop, ← prune_rows] at hcut
      exact (List.append_nil (events ops)).symm ▸ hcut

/-- The entries are numbered in the order of the calls. -/
structure Numbered (db : Database) : Prop where
  ordered : db.audit.Pairwise fun e e' => e.id < e'.id
  fresh : ∀ e ∈ db.audit, e.id < db.nextAuditId

theorem Numbered.step {db : Database} (h : Numbered db) (op : Op) : Numbered (db.step op) := by
  cases op with
  | addStatus | addLog => exact ⟨h.ordered, h.fresh⟩
  | addAudit now action category path source size status =>
    constructor
    · refine List.pairwise_append.mpr ⟨h.ordered, List.pairwise_singleton _ _, fun e he f hf => ?_⟩
      rw [List.mem_singleton.mp hf]
      exact h.fresh e he
    · intro e he
      rcases List.mem_append.mp he with he | he
      · exact Nat.lt_succ_of_lt (h.fresh e he)
      · rw [List.mem_singleton.mp he]
        exact Nat.lt_succ_self _
  | prune maxRows =>
    exact ⟨h.ordered.filter _, fun e he => h.fresh e (List.mem_of_mem_filter he)⟩

theorem numbered_after (ops : List Op) : Numbered (Database.after ops) :=
  invariant ops (fun _ op h => h.step op) ⟨List.Pairwise.nil, by simp [Database.empty]⟩

/-- The entries left are a cut of the entries of the calls. -/
theorem cut_entries (h : ∀ op ∈ ops, op.Keeps m) :
    Cut m (entries ops) ((Database.after ops).audit.map AuditEvent.shown) := by
  induction ops using List.reverseRecOn with
  | nil => exact Cut.refl m []
  | append_singleton ops op ih =>
    obtain ⟨hops, hop⟩ := keeps_concat h
    have ih := ih hops
    rw [after_concat, entries_concat]
    cases op with
    | addStatus | addLog => exact (List.append_nil (entries ops)).symm ▸ ih
    | addAudit now action category path source size status =>
      rw [Database.step, Database.addAudit, List.map_append]
      exact ih.concat _
    | prune maxRows =>
      have hcut := ih.drop hop
      rw [List.length_map, ← List.map_drop, ← pruneRows_eq_drop (numbered_after ops).ordered]
        at hcut
      exact (List.append_nil (entries ops)).symm ▸ hcut

/-! ## What the views show -/

theorem handleLogs_eq (q : LogQuery) (db : Database) :
    handleLogs q db =
      ((db.events.rows.map DeployEvent.shown).reverse.filter q.asksFor).take q.rows := by
  have hfilter : (if q.serial = "" then db.events.rows else
      db.events.rows.filter fun e => e.serial = some q.serial) =
        db.events.rows.filter (q.asksFor ∘ DeployEvent.shown) := by
    split_ifs with hserial
    · simp [LogQuery.asksFor, hserial, Function.comp_def]
    · apply List.filter_congr
      intro e he
      -- every row has a serial
      obtain ⟨s, hs⟩ := Option.ne_none_iff_exists'.mp (db.events.named e he)
      simp [LogQuery.asksFor, hserial, DeployEvent.shown, hs]
  rw [handleLogs, Store.deployEvents, hfilter,
    newestRows_eq (db.events.ordered.filter _), ← List.map_reverse, List.filter_map,
    ← List.filter_reverse, List.map_take]

theorem handleAudit_eq {db : Database} (h : Numbered db) (limit : String) :
    handleAudit limit db =
      (db.audit.map AuditEvent.shown).reverse.take (queryInt limit 200 2000) := by
  rw [handleAudit, Database.auditEntries, newestRows_eq h.ordered, ← List.map_reverse,
    List.map_take]

/-- **The logs tab.** After any calls of the store in any order, with prunings that keep at least
`m` rows, the view shows the newest events asked for of those that were logged, newest first. Only
an event that has `m` newer ones may be missing; where all machines are asked for and no more than
`m` rows, pruning changes nothing. -/
theorem handleLogs_after (ops : List Op) (m : ℕ) (h : ∀ op ∈ ops, op.Keeps m) (q : LogQuery) :
    (((events ops).reverse.take m).filter q.asksFor).take q.rows <+:
        handleLogs q (Database.after ops) ∧
      handleLogs q (Database.after ops) <+: ((events ops).reverse.filter q.asksFor).take q.rows ∧
      (q.serial = "" → q.rows ≤ m →
        handleLogs q (Database.after ops) = (events ops).reverse.take q.rows) := by
  obtain ⟨hleast, hmost⟩ := (cut_events h).view q.asksFor q.rows
  rw [← handleLogs_eq] at hleast hmost
  refine ⟨hleast, hmost, fun hserial hrows => ?_⟩
  have hall (l : List ShownEvent) : l.filter q.asksFor = l := by
    simp [LogQuery.asksFor, hserial]
  rw [hall, List.take_take, Nat.min_eq_left hrows] at hleast
  rw [hall] at hmost
  exact hmost.eq_of_length_le hleast.length_le

/-- Two reports and a log line, of which a pruning keeps one. -/
def prunedOps : List Op :=
  [.addStatus "2024-05-01T10:20:00Z" (sampleReport .started "Begin"),
    .addLog "2024-05-01T10:20:05Z" "SN-2" "" "INFO" "Disk 0 partitioned." "",
    .addStatus "2024-05-01T10:20:09Z" (sampleReport .progress "Apply"), .prune 1]

theorem handleLogs_pruned :
    (((events prunedOps).reverse.take 1).filter (LogQuery.asksFor ⟨"SN-1", ""⟩)).take 200 <+:
        handleLogs ⟨"SN-1", ""⟩ (Database.after prunedOps) ∧
      handleLogs ⟨"SN-1", ""⟩ (Database.after prunedOps) <+:
        ((events prunedOps).reverse.filter (LogQuery.asksFor ⟨"SN-1", ""⟩)).take 200 ∧
      ("SN-1" = "" → 200 ≤ 1 →
        handleLogs ⟨"SN-1", ""⟩ (Database.after prunedOps) = (events prunedOps).reverse.take 200) :=
  handleLogs_after prunedOps 1 (by simp [prunedOps, Op.Keeps]) ⟨"SN-1", ""⟩

/-- **The audit tab** shows the newest entries of those that were made, newest first, and pruning
changes nothing where no more entries are asked for than prunings keep. -/
theorem handleAudit_after (ops : List Op) (m : ℕ) (h : ∀ op ∈ ops, op.Keeps m) (limit : String) :
    handleAudit limit (Database.after ops) <+:
        (entries ops).reverse.take (queryInt limit 200 2000) ∧
      (queryInt limit 200 2000 ≤ m →
        handleAudit limit (Database.after ops) =
          (entries ops).reverse.take (queryInt limit 200 2000)) := by
  obtain ⟨hleast, hmost⟩ := (cut_entries h).view (fun _ => true) (queryInt limit 200 2000)
  rw [List.filter_true, List.filter_true, ← handleAudit_eq (numbered_after ops)] at hmost
  rw [List.filter_true, List.filter_true, ← handleAudit_eq (numbered_after ops)] at hleast
  refine ⟨hmost, fun hlimit => hmost.eq_of_length_le ?_⟩
  rw [List.take_take, Nat.min_eq_left hlimit] at hleast
  exact hleast.length_le

end WinDep.Fleet
