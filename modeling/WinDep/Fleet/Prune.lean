/-
# Pruning the store

The store keeps the newest rows of each table. A pruned table is a suffix of what
was ever inserted, and what was last in the whole is last in every suffix that
still has it. So pruning can take a machine out of the fleet view, but never
shows an older report of it.
-/

import WinDep.Data.Runs
import WinDep.Fleet.Delivery

namespace WinDep

namespace Fleet

open Latest Runs

/-- A row of the audit trail. -/
structure AuditEvent where
  id : ℕ
  ts : String
  action : String
  category : String
  path : String
  source : String
  size : Int64
  status : Int64

/-- The two tables. Numbers are given once, also when rows are deleted. -/
structure Database where
  events : Store
  audit : List AuditEvent
  nextAuditId : ℕ

namespace Store

/-- Keep the newest rows; the next number stays. -/
def prune (maxRows : ℕ) (st : Store) : Store where
  rows := pruneRows DeployEvent.id maxRows st.rows
  nextId := st.nextId
  ordered := st.ordered.filter _
  fresh e he := st.fresh e (List.mem_of_mem_filter he)
  named e he := st.named e (List.mem_of_mem_filter he)

end Store

/-- A call of the store. -/
inductive Op
  | addStatus (now : String) (r : StatusReport)
  | addLog (now serial mac level message ts : String)
  | addAudit (now action category path source : String) (size status : Int64)
  | prune (maxRows : ℕ)

namespace Database

def empty : Database := ⟨Store.empty, [], 1⟩

def addAudit (now action category path source : String) (size status : Int64)
    (db : Database) : Database :=
  { db with
    audit := db.audit ++ [⟨db.nextAuditId, now, action, category, path, source, size, status⟩]
    nextAuditId := db.nextAuditId + 1 }

/-- Both tables are capped alike. -/
def prune (maxRows : ℕ) (db : Database) : Database :=
  { db with
    events := db.events.prune maxRows
    audit := pruneRows AuditEvent.id maxRows db.audit }

def step (db : Database) : Op → Database
  | .addStatus now r => { db with events := db.events.addStatus now r }
  | .addLog now serial mac level message ts =>
    { db with events := db.events.addLog now serial mac level message ts }
  | .addAudit now action category path source size status =>
    db.addAudit now action category path source size status
  | .prune maxRows => db.prune maxRows

/-- The tables after the calls. -/
def after (ops : List Op) : Database := run step ops empty

end Database

/-! ## What was ever inserted -/

/-- The reports of a run with their receive times, in the order of the calls. -/
def reports (ops : List Op) : List (String × StatusReport) :=
  ops.filterMap fun
    | .addStatus now r => some (now, r)
    | _ => none

/-- The row of a report in the fleet view. -/
def machineOfReport (now : String) (r : StatusReport) : Machine :=
  ⟨r.serial, r.state, r.percent, r.message, r.model, now⟩

variable {ops : List Op} {st : Store} {e : DeployEvent} {s : String} {n : ℕ}

theorem after_concat (op : Op) :
    Database.after (ops ++ [op]) = (Database.after ops).step op := by
  rw [Database.after, run, List.foldl_concat]
  rfl

theorem prune_rows : (st.prune n).rows = st.rows.drop (st.rows.length - n) :=
  pruneRows_eq_drop st.ordered

theorem statuses_prune_suffix : (st.prune n).statuses <:+ st.statuses := by
  rw [Store.statuses, Store.statuses, prune_rows]
  exact (List.drop_suffix _ _).filter _

/-- The status rows of the table are the last of the reports. -/
theorem statuses_suffix_reports (ops : List Op) :
    (Database.after ops).events.statuses.map machineOf <:+
      (reports ops).map fun p => machineOfReport p.1 p.2 := by
  induction ops using List.reverseRecOn with
  | nil => exact List.suffix_rfl
  | append_singleton ops op ih =>
    rw [after_concat, reports, List.filterMap_append, List.map_append, ← reports]
    cases op with
    | addStatus now r =>
      obtain ⟨dropped, hdropped⟩ := ih
      refine ⟨dropped, ?_⟩
      simp only [Database.step, Store.statuses_addStatus, List.map_append, ← hdropped,
        List.append_assoc]
      rfl
    | addLog now serial mac level message ts => simpa [Database.step] using ih
    | addAudit => simpa [Database.step, Database.addAudit] using ih
    | prune n =>
      simp only [Database.step, Database.prune, List.filterMap_cons, List.filterMap_nil,
        List.map_nil, List.append_nil]
      exact (statuses_prune_suffix.map machineOf).trans ih

/-- What is last in the table is last of all reports. -/
theorem last_report_of_last
    (h : last DeployEvent.serial (some s) (Database.after ops).events.statuses = some e) :
    ∃ now r, last (fun p : String × StatusReport => p.2.serial) s (reports ops) = some (now, r) ∧
      machineOf e = machineOfReport now r := by
  obtain ⟨dropped, hdropped⟩ := statuses_suffix_reports ops
  have htable : last Machine.serial s ((Database.after ops).events.statuses.map machineOf) =
      some (machineOf e) := by
    have hmap : last Machine.serial s ((Database.after ops).events.statuses.map machineOf) =
        (last (fun e : DeployEvent => e.serial.getD "") s
          (Database.after ops).events.statuses).map machineOf := last_map fun _ => rfl
    have hkey : last (fun e : DeployEvent => e.serial.getD "") s
        (Database.after ops).events.statuses = some e := by
      rw [← h]
      apply last_congr
      intro e' he'
      obtain ⟨s', hs'⟩ := Option.ne_none_iff_exists'.mp (Store.serial_ne_none he')
      simp [hs']
    rw [hmap, hkey, Option.map_some]
  have hreports : last Machine.serial s ((reports ops).map fun p => machineOfReport p.1 p.2) =
      (last (fun p : String × StatusReport => p.2.serial) s (reports ops)).map fun p =>
        machineOfReport p.1 p.2 := last_map fun _ => rfl
  rw [← hdropped, last_append, htable, Option.some_or, eq_comm, Option.map_eq_some_iff]
    at hreports
  obtain ⟨⟨now, r⟩, hlast, heq⟩ := hreports
  exact ⟨now, r, hlast, heq.symm⟩

/-- At some pruning the machine's latest status had at least as many newer rows as are kept. -/
def PrunedAway (s : String) (ops : List Op) : Prop :=
  ∃ before n rest e, ops = before ++ .prune n :: rest ∧
    last DeployEvent.serial (some s) (Database.after before).events.statuses = some e ∧
      n ≤ ((Database.after before).events.rows.filter fun e' => e.id < e'.id).length

theorem PrunedAway.concat (h : PrunedAway s ops) (op : Op) : PrunedAway s (ops ++ [op]) := by
  obtain ⟨before, n, rest, e, rfl, hlast, hle⟩ := h
  exact ⟨before, n, rest ++ [op], e, by simp, hlast, hle⟩

/-- A latest status that is not cut off stays the latest. -/
theorem last_prune (h : last DeployEvent.serial (some s) st.statuses = some e)
    (he : e ∈ (st.prune n).rows) :
    last DeployEvent.serial (some s) (st.prune n).statuses = some e := by
  obtain ⟨hmem, hserial⟩ := mem_of_last h
  have hkept : e ∈ (st.prune n).statuses :=
    List.mem_filter.mpr ⟨he, (List.mem_filter.mp hmem).2⟩
  obtain ⟨e', he'⟩ := exists_last DeployEvent.serial hkept
  rw [hserial] at he'
  obtain ⟨dropped, hdropped⟩ := @statuses_prune_suffix st n
  rw [← hdropped, last_append, he', Option.some_or] at h
  rw [he', h]

/-- A machine that reported is in the table, or was pruned. -/
theorem last_or_prunedAway (h : s ∈ (reports ops).map fun p => p.2.serial) :
    (∃ e, last DeployEvent.serial (some s) (Database.after ops).events.statuses = some e) ∨
      PrunedAway s ops := by
  -- pruned once, it counts as pruned; else every call keeps or replaces its latest status
  induction ops using List.reverseRecOn with
  | nil => simp [reports] at h
  | append_singleton ops op ih =>
    rw [after_concat]
    rw [reports, List.filterMap_append, List.map_append, ← reports, List.mem_append] at h
    cases op with
    | addStatus now r =>
      rw [Database.step, Store.statuses_addStatus, last_concat]
      by_cases hs : (Store.statusEvent (Database.after ops).events.nextId now r).serial = some s
      · rw [if_pos hs]
        exact .inl ⟨_, rfl⟩
      · rw [if_neg hs]
        have hbefore : s ∈ (reports ops).map fun p => p.2.serial := by
          refine h.resolve_right fun hnew => hs ?_
          simp only [List.filterMap_cons, List.filterMap_nil, List.map_cons, List.map_nil,
            List.mem_singleton] at hnew
          rw [hnew]
          rfl
        exact (ih hbefore).imp_right (PrunedAway.concat · _)
    | addLog now serial mac level message ts =>
      rw [Database.step, Store.statuses_addLog]
      exact (ih (by simpa using h)).imp_right (PrunedAway.concat · _)
    | addAudit => exact (ih (by simpa using h)).imp_right (PrunedAway.concat · _)
    | prune n =>
      rcases ih (by simpa using h) with ⟨e, he⟩ | hpruned
      · by_cases hkept : e ∈ ((Database.after ops).events.prune n).rows
        · exact .inl ⟨e, last_prune he hkept⟩
        · rw [prune_rows] at hkept
          have hmem : e ∈ (Database.after ops).events.rows :=
            List.mem_of_mem_filter (mem_of_last he).1
          exact .inr ⟨ops, n, [], e, rfl, he,
            le_length_newer (Database.after ops).events.ordered hmem hkept⟩
      · exact .inr (hpruned.concat _)

/-- **The fleet view never goes back.** After any calls in any order, a machine has at most one row,
and the row is its last report of the whole run. A machine that reported has no row only if at some
pruning its latest status had at least as many newer rows as the pruning keeps. -/
theorem fleet_after (ops : List Op) (s : String) :
    ((Database.after ops).events.fleet.filter (fun m => m.serial = s) = [] ∨
        ∃ now r, last (fun p : String × StatusReport => p.2.serial) s (reports ops) =
          some (now, r) ∧
            (Database.after ops).events.fleet.filter (fun m => m.serial = s) =
              [machineOfReport now r]) ∧
      (s ∈ (reports ops).map (fun p => p.2.serial) →
        (Database.after ops).events.fleet.filter (fun m => m.serial = s) = [] →
          PrunedAway s ops) := by
  rw [fleet_filter]
  constructor
  · cases hlast : last DeployEvent.serial (some s) (Database.after ops).events.statuses with
    | none => exact .inl rfl
    | some e =>
      obtain ⟨now, r, hreport, hmachine⟩ := last_report_of_last hlast
      exact .inr ⟨now, r, hreport, by rw [Option.map_some, hmachine, Option.toList_some]⟩
  · intro hreported hmissing
    refine (last_or_prunedAway hreported).resolve_left ?_
    rintro ⟨e, he⟩
    simp [he] at hmissing

end Fleet

end WinDep
