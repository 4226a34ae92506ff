/-
# The fleet tallies

The fleet tab counts the machines of the fleet view by the word in their state:
success, failure, progress or start. The agent's words are succeeded, failed,
progress and started. Only one word is the same on both sides, so the tallies are
right exactly while every machine last reported progress.
-/

import WinDep.Fleet.Store

namespace WinDep.Fleet

open Latest

/-- A call of `Send-ZtpStatus`. -/
structure Call where
  identity : MachineIdentity
  state : AgentState
  percent : Int32
  message : String

namespace Call

def serial (c : Call) : String := c.identity.serial

def body (c : Call) : Json := sendZtpStatus c.identity c.state c.percent c.message

/-- The report of a call forwarded by the api and stored by the admin. -/
def deliver (now : String) (c : Call) (st : Store) : Store :=
  match handleReport c.body with
  | none => st
  | some r => (st.handleIngestStatus now r.toJson).1

end Call

/-- The store after the calls, each with the time the admin received it. -/
def history (calls : List (String × Call)) : Store :=
  calls.foldl (fun st c => c.2.deliver c.1 st) Store.empty

/-! ## The tab -/

structure Counts where
  total : ℕ
  imaging : ℕ
  success : ℕ
  failure : ℕ
  deriving DecidableEq

/-- The counts of the fleet tab, computed in the browser. -/
def counts (items : List Machine) : Counts where
  total := items.length
  imaging := (items.filter fun m => m.state == "progress" || m.state == "start").length
  success := (items.filter fun m => m.state == "success").length
  failure := (items.filter fun m => m.state == "failure").length

/-! ## What the machines reported -/

variable {calls : List (String × Call)} {now : String} {c : Call} {st : Store}

/-- The machines that reported. -/
def machines (calls : List (String × Call)) : List String := (calls.map fun c => c.2.serial).dedup

/-- The state a machine reported last. -/
def lastState (calls : List (String × Call)) (s : String) : Option AgentState :=
  (last (fun c => c.2.serial) s calls).map fun c => c.2.state

/-- The number of machines whose last state is one of these. -/
def tally (calls : List (String × Call)) (states : List AgentState) : ℕ :=
  (machines calls).countP fun s => (lastState calls s).any fun a => a ∈ states

/-- The counts are those of the machines' last states. -/
structure Exact (calls : List (String × Call)) (n : Counts) : Prop where
  total : n.total = (machines calls).length
  success : n.success = tally calls [.succeeded]
  failure : n.failure = tally calls [.failed]
  imaging : n.imaging = tally calls [.started, .progress]
  sum : n.success + n.failure + n.imaging = n.total

/-! ## The chain -/

theorem deliver_statuses :
    (c.deliver now st).statuses = st.statuses ++ [Store.statusEvent st.nextId now
      ⟨c.serial, c.identity.mac.getD "", c.state.name, c.percent.toInt64, c.message,
        c.identity.model.getD ""⟩] := by
  rw [Call.deliver, Call.body, handleReport_sendZtpStatus]
  simp only [Store.handleIngestStatus, unmarshalReport_toJson, Store.statuses_addStatus]
  rfl

/-- The rows hold the serials and the states of the calls, in order. -/
theorem history_statuses (calls : List (String × Call)) :
    (history calls).statuses.map (fun e => (e.serial, e.state)) =
      calls.map fun c => (some c.2.serial, some c.2.state.name) := by
  induction calls using List.reverseRecOn with
  | nil => rfl
  | append_singleton calls c ih =>
    rw [history, List.foldl_concat, ← history, deliver_statuses, List.map_append, ih,
      List.map_append]
    rfl

theorem history_serials :
    (history calls).statuses.map DeployEvent.serial =
      (calls.map fun c => c.2.serial).map some := by
  have h := congrArg (List.map Prod.fst) (history_statuses calls)
  simpa [Function.comp_def] using h

theorem history_last (s : String) :
    (last DeployEvent.serial (some s) (history calls).statuses).map DeployEvent.state =
      (lastState calls s).map fun a => some a.name := by
  -- the last row of a machine is the row of its last call
  have hrows : last Prod.fst (some s) ((history calls).statuses.map fun e => (e.serial, e.state)) =
      (last DeployEvent.serial (some s) (history calls).statuses).map fun e =>
        (e.serial, e.state) := last_map fun _ => rfl
  have hcalls : last Prod.fst (some s)
      (calls.map fun c => (some c.2.serial, some c.2.state.name)) =
        (last (fun c => some c.2.serial) (some s) calls).map fun c =>
          (some c.2.serial, some c.2.state.name) := last_map fun _ => rfl
  have hkey : last (fun c : String × Call => some c.2.serial) (some s) calls =
      last (fun c => c.2.serial) s calls := last_comp (Option.some_injective _)
  rw [history_statuses, hcalls, hkey] at hrows
  have h := congrArg (Option.map Prod.snd) hrows
  simpa [lastState, Option.map_map, Function.comp_def] using h.symm

/-- Counting rows of the fleet view by state is counting machines by last state. -/
theorem fleet_countP (p : String → Bool) :
    (history calls).fleet.countP (fun m => p m.state) =
      (machines calls).countP fun s => (lastState calls s).any fun a => p a.name := by
  have hinj : Function.Injective (some : String → Option String) := Option.some_injective _
  calc (history calls).fleet.countP (fun m => p m.state)
      = (latest DeployEvent.serial (history calls).statuses).countP
          fun e => p (e.state.getD "") := by
        rw [(history calls).fleet_perm.countP_eq, List.countP_map]
        rfl
    _ = (machines calls).countP fun s =>
          (last DeployEvent.serial (some s) (history calls).statuses).any
            fun e => p (e.state.getD "") := by
        rw [countP_latest, history_serials, machines, List.dedup_map_of_injective hinj,
          List.countP_map]
        rfl
    _ = (machines calls).countP fun s => (lastState calls s).any fun a => p a.name := by
        apply List.countP_congr
        intro s _
        have h : _ = (lastState calls s).map fun a => some a.name := history_last s
        revert h
        cases last DeployEvent.serial (some s) (history calls).statuses <;>
          cases lastState calls s <;> simp
        intro h
        simp [h]

/-! ## The tallies -/

theorem exists_lastState {s : String} (hs : s ∈ machines calls) :
    ∃ a, lastState calls s = some a := by
  obtain ⟨c, hc, rfl⟩ := List.mem_map.mp (List.mem_dedup.mp hs)
  obtain ⟨c', hc'⟩ := exists_last (fun c : String × Call => c.2.serial) hc
  exact ⟨c'.2.state, by rw [lastState, hc', Option.map_some]⟩

/-- What the tab counts, in the words of the agent. -/
theorem counts_fleet (calls : List (String × Call)) :
    counts (history calls).fleet =
      ⟨(machines calls).length, tally calls [.progress], 0, 0⟩ := by
  have htally (p : String → Bool) (states : List AgentState)
      (hp : ∀ a : AgentState, p a.name = decide (a ∈ states)) :
      ((history calls).fleet.filter fun m => p m.state).length = tally calls states := by
    rw [← List.countP_eq_length_filter, fleet_countP, tally]
    simp only [hp]
  have hnone : tally calls [] = 0 := by simp [tally]
  have htotal : (history calls).fleet.length = (machines calls).length := by
    rw [(history calls).fleet_perm.length_eq, List.length_map, length_latest, history_serials,
      List.dedup_map_of_injective (Option.some_injective _), List.length_map, machines]
  -- the tab tests for three words the agent never sends
  rw [counts, htotal, htally (fun s => s == "progress" || s == "start") [.progress],
    htally (fun s => s == "success") [], htally (fun s => s == "failure") [], hnone]
  all_goals
    intro a
    cases a <;> decide

/-- **The tallies.** They are right exactly when every machine last reported progress. -/
theorem tallies_exact_iff (calls : List (String × Call)) :
    Exact calls (counts (history calls).fleet) ↔
      ∀ s ∈ machines calls, lastState calls s = some .progress := by
  rw [counts_fleet]
  constructor
  · -- only progress is counted, and the counts add up to all machines
    intro h s hs
    have hsum := h.sum
    simp only [zero_add] at hsum
    have hall := List.countP_eq_length.mp hsum s hs
    obtain ⟨a, ha⟩ := exists_lastState hs
    simpa [ha] using hall
  · intro h
    have htally (states : List AgentState) :
        tally calls states = if .progress ∈ states then (machines calls).length else 0 := by
      unfold tally
      split_ifs with hmem
      · apply List.countP_eq_length.mpr
        intro s hs
        simp [h s hs, hmem]
      · apply List.countP_eq_zero.mpr
        intro s hs
        simp [h s hs, hmem]
    constructor <;> simp [htally]

/-- A machine that starts and succeeds is counted among the machines and nowhere else. -/
theorem succeeded_uncounted :
    ¬ ∀ calls : List (String × Call), Exact calls (counts (history calls).fleet) := by
  intro h
  have hsuccess := (h [("2024-05-01T10:00:00Z", ⟨sampleIdentity, .started, 0, "Deploy begin"⟩),
    ("2024-05-01T10:20:00Z", ⟨sampleIdentity, .succeeded, 100, "Complete"⟩)]).success
  rw [counts_fleet] at hsuccess
  exact absurd hsuccess (by decide)

end WinDep.Fleet
