/-
# Delivery of status reports

The api answers a report at once and posts it on to the admin from a goroutine of
its own. A machine reports again only after it was answered, but the posts of two
reports may overtake each other on the way. Whatever the order, no report is lost
or stored twice; the fleet view shows the report that arrived last.
-/

import WinDep.Data.Runs
import WinDep.Fleet.Store

namespace WinDep.Fleet

open Latest Runs

/-- The machines, the replicas of the api and the admin. -/
structure Net where
  /-- what the machines reported and was answered 204, in order -/
  sent : List StatusReport
  /-- the posts on their way to the admin -/
  inFlight : List StatusReport
  /-- what the admin received, in order -/
  arrived : List StatusReport
  store : Store

inductive Event
  /-- a machine's report reaches a replica of the api -/
  | report (replica : ℕ) (body : Json)
  /-- a post reaches the admin -/
  | arrive (now : String) (r : StatusReport)
  /-- a forwarded log line reaches the admin -/
  | log (now serial mac level message ts : String)

def Net.init : Net := ⟨[], [], [], Store.empty⟩

/-- One event. A body that is no report is answered 400 and forwards nothing. -/
def deliverStep (net : Net) : Event → Net
  | .report _ body =>
    match handleReport body with
    | none => net
    | some r => { net with sent := net.sent ++ [r], inFlight := net.inFlight ++ [r] }
  | .arrive now r =>
    if r ∈ net.inFlight then
      { net with
        inFlight := net.inFlight.erase r
        arrived := net.arrived ++ [r]
        store := (net.store.handleIngestStatus now r.toJson).1 }
    else net
  | .log now serial mac level message ts =>
    { net with store := net.store.addLog now serial mac level message ts }

/-! ## What a run keeps -/

/-- The report a row was stored from. -/
def reportOf (e : DeployEvent) : StatusReport :=
  ⟨e.serial.getD "", e.mac.getD "", e.state.getD "", e.percent.getD 0, e.message.getD "",
    e.model.getD ""⟩

/-- Every report is on its way or has arrived, and what arrived is stored in the order of
arrival. -/
structure Accounted (net : Net) : Prop where
  sent : net.sent.Perm (net.arrived ++ net.inFlight)
  stored : net.store.statuses.map reportOf = net.arrived

theorem accounted_init : Accounted Net.init := ⟨List.Perm.refl _, rfl⟩

theorem Accounted.deliverStep {net : Net} (h : Accounted net) (e : Event) :
    Accounted (deliverStep net e) := by
  cases e with
  | report replica body =>
    simp only [Fleet.deliverStep]
    cases handleReport body with
    | none => exact h
    | some r =>
      refine ⟨?_, h.stored⟩
      rw [← List.append_assoc]
      exact h.sent.append_right _
  | arrive now r =>
    simp only [Fleet.deliverStep]
    split_ifs with hmem
    · constructor
      -- the post moves from those on their way to those that arrived
      · rw [List.append_assoc]
        exact h.sent.trans ((List.perm_cons_erase hmem).append_left _)
      · simp only [Store.handleIngestStatus, unmarshalReport_toJson, Store.statuses_addStatus,
          List.map_append, h.stored]
        rfl
    · exact h
  | log now serial mac level message ts =>
    exact ⟨h.sent, by simpa [Fleet.deliverStep] using h.stored⟩

theorem accounted_run (es : List Event) : Accounted (run deliverStep es Net.init) :=
  invariant es (fun _ e h => h.deliverStep e) accounted_init

/-- Once nothing is on its way, what arrived is what was sent, in some order. -/
theorem arrived_perm_sent {es : List Event} (h : (run deliverStep es Net.init).inFlight = []) :
    (run deliverStep es Net.init).arrived.Perm (run deliverStep es Net.init).sent := by
  have hsent := (accounted_run es).sent
  rw [h, List.append_nil] at hsent
  exact hsent.symm

/-! ## What the fleet view shows -/

/-- A report as the fleet view shows it, but for the receive time. -/
def StatusReport.shown (r : StatusReport) : Machine :=
  ⟨r.serial, r.state, r.percent, r.message, r.model, ""⟩

/-- The fleet view has one row for the machine, and it is this report. -/
def Shows (st : Store) (r : StatusReport) : Prop :=
  (st.fleet.filter fun m => m.serial = r.serial).map (fun m => { m with ts := "" }) = [r.shown]

variable {st : Store} {s : String}

theorem fleet_filter (st : Store) (s : String) :
    st.fleet.filter (fun m => m.serial = s) =
      ((last DeployEvent.serial (some s) st.statuses).map machineOf).toList := by
  have hkey : (latest DeployEvent.serial st.statuses).filter
      ((fun m => decide (m.serial = s)) ∘ machineOf) =
        (latest DeployEvent.serial st.statuses).filter fun e => e.serial = some s := by
    apply List.filter_congr
    intro e he
    obtain ⟨s', hs'⟩ := Option.ne_none_iff_exists'.mp
      (Store.serial_ne_none (mem_of_last (mem_latest.mp he)).1)
    simp [machineOf, hs']
  have hperm := st.fleet_perm.filter fun m => m.serial = s
  rw [List.filter_map, hkey, filter_latest, ← Option.toList_map] at hperm
  -- at most one row is left, so the order of the view does not matter
  cases h : (last DeployEvent.serial (some s) st.statuses).map machineOf with
  | none => simpa [h] using hperm
  | some m => simpa [h] using hperm

/-- The view shows what the machine's last stored report says. -/
theorem shows_iff {arrived : List StatusReport} (h : st.statuses.map reportOf = arrived)
    (r : StatusReport) :
    Shows st r ↔
      (last StatusReport.serial r.serial arrived).map StatusReport.shown = some r.shown := by
  have hlast : last StatusReport.serial r.serial arrived =
      (last DeployEvent.serial (some r.serial) st.statuses).map reportOf := by
    have hmap : last StatusReport.serial r.serial (st.statuses.map reportOf) =
        (last (fun e : DeployEvent => e.serial.getD "") r.serial st.statuses).map reportOf :=
      last_map fun _ => rfl
    rw [← h, hmap]
    congr 1
    apply last_congr
    intro e he
    obtain ⟨s', hs'⟩ := Option.ne_none_iff_exists'.mp (Store.serial_ne_none he)
    simp [hs']
  rw [Shows, fleet_filter, hlast]
  cases last DeployEvent.serial (some r.serial) st.statuses with
  | none => simp
  | some e => simp [machineOf, reportOf, StatusReport.shown]

/-- **The fleet view ends on the report that arrives last.** Once every post has arrived, none is
lost or stored twice, and the view shows the report a machine sent last exactly when the post of the
machine that arrived last carries the same. -/
theorem fleet_shows_iff (es : List Event) (hdone : (run deliverStep es Net.init).inFlight = [])
    (s : String) (r : StatusReport)
    (hsent : last StatusReport.serial s (run deliverStep es Net.init).sent = some r) :
    (run deliverStep es Net.init).arrived.Perm (run deliverStep es Net.init).sent ∧
      (Shows (run deliverStep es Net.init).store r ↔
        (last StatusReport.serial s (run deliverStep es Net.init).arrived).map
          StatusReport.shown = some r.shown) := by
  obtain ⟨-, rfl⟩ := mem_of_last hsent
  exact ⟨arrived_perm_sent hdone, shows_iff (accounted_run es).stored r⟩

/-! ## Two reports of one machine -/

def sampleReport (state : AgentState) (message : String) : StatusReport :=
  ⟨"SN-1", "", state.name, 100, message, ""⟩

/-- A machine reports progress and success. The posts arrive in this order, or the other way
round. -/
def sampleRun (inOrder : Bool) : List Event :=
  let posts := [sampleReport .progress "Apply", sampleReport .succeeded "Complete"]
  [.report 0 (sendZtpStatus sampleIdentity .progress 100 "Apply"),
    .report 1 (sendZtpStatus sampleIdentity .succeeded 100 "Complete")] ++
  (if inOrder then posts else posts.reverse).map (.arrive "2024-05-01T10:20:00Z")

theorem fleet_shows_in_order :
    (run deliverStep (sampleRun true) Net.init).arrived.Perm
        (run deliverStep (sampleRun true) Net.init).sent ∧
      (Shows (run deliverStep (sampleRun true) Net.init).store
          (sampleReport .succeeded "Complete") ↔
        (last StatusReport.serial "SN-1" (run deliverStep (sampleRun true) Net.init).arrived).map
          StatusReport.shown = some (sampleReport .succeeded "Complete").shown) :=
  fleet_shows_iff (sampleRun true) (by decide +kernel) "SN-1" _ (by decide +kernel)

/-- Success was reported last, and the fleet view ends on progress. -/
theorem success_overtaken :
    ¬ ∀ es : List Event, (run deliverStep es Net.init).inFlight = [] →
      ∀ (s : String) (r : StatusReport),
        last StatusReport.serial s (run deliverStep es Net.init).sent = some r →
          Shows (run deliverStep es Net.init).store r := by
  intro h
  have hshows := h (sampleRun false) (by decide +kernel) "SN-1"
    (sampleReport .succeeded "Complete") (by decide +kernel)
  rw [shows_iff (accounted_run (sampleRun false)).stored] at hshows
  exact absurd hshows (by decide +kernel)

end WinDep.Fleet
