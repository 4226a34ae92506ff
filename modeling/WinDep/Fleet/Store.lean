/-
# The telemetry store

Status reports and log lines are rows of one table, numbered in the order they
are inserted. The fleet view picks the row of the highest number per serial. The
numbers grow with every insertion, so the view is the last inserted status of
every machine.
-/

import WinDep.Data.Latest
import WinDep.Fleet.Report
import Mathlib.Data.List.Perm.Basic
import Mathlib.Data.List.Perm.Lattice

namespace WinDep.Fleet

open Latest

inductive Kind
  | status
  | log
  deriving DecidableEq, Repr

/-- A row of `deploy_event`. A column an insertion leaves out is null. -/
structure DeployEvent where
  id : ℕ
  ts : String
  kind : Kind
  serial : Option String
  mac : Option String
  state : Option String
  percent : Option Int64
  message : Option String
  model : Option String
  level : Option String
  deriving DecidableEq

/-- A row of the fleet view as it is sent to the browser. -/
structure Machine where
  serial : String
  state : String
  percent : Int64
  message : String
  model : String
  ts : String
  deriving DecidableEq

def machineOf (e : DeployEvent) : Machine :=
  ⟨e.serial.getD "", e.state.getD "", e.percent.getD 0, e.message.getD "", e.model.getD "", e.ts⟩

/-- The table, in insertion order, and the number of the next row. -/
structure Store where
  rows : List DeployEvent
  nextId : ℕ
  ordered : rows.Pairwise fun e e' => e.id < e'.id
  fresh : ∀ e ∈ rows, e.id < nextId
  named : ∀ e ∈ rows, e.serial ≠ none

namespace Store

def empty : Store := ⟨[], 1, List.Pairwise.nil, by simp, by simp⟩

def insert (st : Store) (e : DeployEvent) (hid : e.id = st.nextId) (hserial : e.serial ≠ none) :
    Store where
  rows := st.rows ++ [e]
  nextId := st.nextId + 1
  ordered := List.pairwise_append.mpr
    ⟨st.ordered, List.pairwise_singleton _ _, fun e' he' f hf => by
      rw [List.mem_singleton.mp hf, hid]
      exact st.fresh e' he'⟩
  fresh := fun e' he' => by
    rcases List.mem_append.mp he' with he' | he'
    · exact Nat.lt_succ_of_lt (st.fresh e' he')
    · rw [List.mem_singleton.mp he', hid]
      exact Nat.lt_succ_self _
  named := fun e' he' => by
    rcases List.mem_append.mp he' with he' | he'
    · exact st.named e' he'
    · rw [List.mem_singleton.mp he']
      exact hserial

/-- The row of a status report. -/
def statusEvent (id : ℕ) (now : String) (r : StatusReport) : DeployEvent :=
  ⟨id, now, .status, some r.serial, some r.mac, some r.state, some r.percent, some r.message,
    some r.model, none⟩

def addStatus (now : String) (r : StatusReport) (st : Store) : Store :=
  st.insert (statusEvent st.nextId now r) rfl (Option.some_ne_none _)

/-- The row of a log line. The line's own time is kept if it has one. -/
def logEvent (id : ℕ) (now serial mac level message ts : String) : DeployEvent :=
  ⟨id, if ts = "" then now else ts, .log, some serial, some mac, none, none, some message, none,
    some level⟩

def addLog (now serial mac level message ts : String) (st : Store) : Store :=
  st.insert (logEvent st.nextId now serial mac level message ts) rfl (Option.some_ne_none _)

/-- `handleIngestStatus`: the store and the status answered. -/
def handleIngestStatus (now : String) (body : Json) (st : Store) : Store × ℕ :=
  match unmarshalReport body with
  | none => (st, 400)
  | some r => (st.addStatus now r, 202)

/-! ## The fleet query -/

def statuses (st : Store) : List DeployEvent := st.rows.filter fun e => e.kind = .status

/-- `SELECT MAX(id) ... WHERE kind='status' AND serial IS NOT NULL GROUP BY serial` -/
def newestIds (st : Store) : List ℕ :=
  ((st.statuses.filter fun e => e.serial ≠ none).map DeployEvent.serial).dedup.filterMap fun s =>
    ((st.statuses.filter fun e => e.serial = s).map DeployEvent.id).max?

/-- The rows the query selects. -/
def selected (st : Store) : List DeployEvent := st.statuses.filter fun e => e.id ∈ st.newestIds

/-- The latest status of every machine, latest receive time first. -/
def fleet (st : Store) : List Machine :=
  (st.selected.mergeSort fun e e' => e'.ts ≤ e.ts).map machineOf

/-! ## The latest status per machine -/

variable {st : Store} {e : DeployEvent} {n : ℕ} {now serial mac level message ts : String}
  {r : StatusReport}

@[simp] theorem statuses_addStatus :
    (st.addStatus now r).statuses = st.statuses ++ [statusEvent st.nextId now r] := by
  simp [statuses, addStatus, insert, statusEvent]

/-- Log lines take a number each and nothing else. -/
@[simp] theorem statuses_addLog :
    (st.addLog now serial mac level message ts).statuses = st.statuses := by
  simp [statuses, addLog, insert, logEvent]

theorem statuses_ordered (st : Store) : st.statuses.Pairwise fun e e' => e.id < e'.id :=
  st.ordered.filter _

theorem serial_ne_none (he : e ∈ st.statuses) : e.serial ≠ none :=
  st.named e (List.mem_of_mem_filter he)

theorem mem_newestIds :
    n ∈ st.newestIds ↔ ∃ e, last DeployEvent.serial e.serial st.statuses = some e ∧ e.id = n := by
  simp only [newestIds, List.mem_filterMap, List.mem_dedup, List.max?_eq_some_iff, List.mem_map,
    List.mem_filter, decide_eq_true_eq]
  constructor
  · -- the numbers grow with the rows, so the largest is the last
    rintro ⟨s, -, ⟨e, ⟨he, rfl⟩, rfl⟩, hmax⟩
    refine ⟨e, (last_eq_some_iff st.statuses_ordered).mpr ⟨⟨he, rfl⟩, fun e' he' hs => ?_⟩, rfl⟩
    exact hmax _ ⟨e', ⟨he', hs⟩, rfl⟩
  · rintro ⟨e, he, rfl⟩
    obtain ⟨⟨hmem, -⟩, hmax⟩ := (last_eq_some_iff st.statuses_ordered).mp he
    refine ⟨e.serial, ⟨e, ⟨hmem, serial_ne_none hmem⟩, rfl⟩, ⟨e, ⟨hmem, rfl⟩, rfl⟩, ?_⟩
    rintro _ ⟨e', ⟨he', hs⟩, rfl⟩
    exact hmax e' he' hs

theorem nodup_ids (st : Store) : (st.statuses.map DeployEvent.id).Nodup :=
  List.pairwise_map.mpr (st.statuses_ordered.imp Nat.ne_of_lt)

/-- The query selects the last status of every machine. -/
theorem mem_selected :
    e ∈ st.selected ↔ last DeployEvent.serial e.serial st.statuses = some e := by
  simp only [selected, List.mem_filter, decide_eq_true_eq, mem_newestIds]
  constructor
  · rintro ⟨he, e', he', hid⟩
    -- a number is given once
    obtain rfl := List.inj_on_of_nodup_map st.nodup_ids (mem_of_last he').1 he hid
    exact he'
  · intro he
    exact ⟨(mem_of_last he).1, e, he, rfl⟩

theorem selected_perm_latest : st.selected.Perm (latest DeployEvent.serial st.statuses) := by
  have hnodup : st.selected.Nodup := (List.Nodup.of_map _ st.nodup_ids).filter _
  apply (List.perm_ext_iff_of_nodup hnodup nodup_latest).mpr
  intro e
  rw [mem_selected, mem_latest]

/-- **The fleet view.** One row per machine, its last inserted status. -/
theorem fleet_perm : st.fleet.Perm ((latest DeployEvent.serial st.statuses).map machineOf) :=
  ((List.mergeSort_perm _ _).trans selected_perm_latest).map machineOf

end Store
end WinDep.Fleet
