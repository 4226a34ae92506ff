/-
# What a deployment reports

The headless script reports when it begins to deploy, how the deployment ended,
and why it was refused; the engine reports its progress in between. All reports
of a run are of one machine, and the last one tells how the run ended.
-/

import WinDep.Data.Executions
import WinDep.Deploy.Headless
import WinDep.Fleet.Delivery
import WinDep.Fleet.Tally

namespace WinDep.Deploy.Headless

open Json Program Handler

/-- What is observed of a run: the reports, and the runs of the engine. -/
inductive Seen
  | reported (uri : String) (body : Json)
  | engine (plan : Plan) (ok : Bool)

def seen : Answered Call.Answer → List Seen
  | ⟨.sendZtpJson uri body, _⟩ => [.reported uri body]
  | ⟨.invokeDeployment plan, .ok _⟩ => [.engine plan true]
  | ⟨.invokeDeployment plan, .error _⟩ => [.engine plan false]
  | _ => []

/-- The machine has the serial, whenever it is asked. -/
def HasSerial (serial : String) : (c : Call) → c.Answer → Prop
  | .getMachineIdentity, r => ∀ i, r = .ok i → i.serial = serial
  | _, _ => True

/-- The body of a report. -/
def statusBody (identity : Identity) (state : DeployState) (percent : ℤ) (message : String) :
    Json :=
  .obj [("serial", .str identity.serial), ("mac", optional identity.mac),
    ("state", .str state.text), ("percent", .num (.ofInt percent)), ("message", .str message),
    ("model", optional identity.model)]

variable {ps : PowerShell} {serial : String} {A : (c : Call) → c.Answer → Prop} {α β : Type}
  {Q : List Seen → Except Raised α → Session → Prop} {s : Session} {cfg : ZtpConfig}

/-! ## Calls of which nothing is observed -/

theorem quiet_getZtpConfig (inventory : Json) :
    (getZtpConfig ps inventory).run.Always (Quiet seen) := by
  unfold getZtpConfig
  refine always_run_bind (always_perform.mpr fun _ => rfl) fun settings => ?_
  refine always_run_bind always_run_except fun serverUrl => ?_
  refine always_run_bind always_run_except fun server => ?_
  refine always_run_bind always_run_except fun api => ?_
  refine always_run_bind (always_perform.mpr fun _ => rfl) fun identity => ?_
  refine always_run_bind always_run_except fun apiUrl => ?_
  have hresolve : (invokeZtpResolve ps apiUrl identity inventory).run.Always (Quiet seen) :=
    ⟨fun _ => rfl, fun _ => trivial⟩
  refine always_run_bind hresolve fun resolved => ?_
  split_ifs
  · exact always_run_except
  · have hdefault : (defaultConfig ps server).run.Always (Quiet seen) :=
      ⟨fun _ => rfl, fun _ => trivial⟩
    exact always_run_bind hdefault fun _ => always_run_except

theorem quiet_invokePolicyEvaluation (policyUrl inventory failAction : Json) :
    (invokePolicyEvaluation ps policyUrl inventory failAction).run.Always (Quiet seen) := by
  unfold invokePolicyEvaluation
  refine always_run_bind always_run_except fun policyUrl => ?_
  refine always_run_bind always_run_except fun inventory => ?_
  refine always_run_bind always_run_except fun failAction => ?_
  split_ifs
  · trivial
  · exact ⟨fun _ => rfl, fun _ => trivial⟩

theorem quiet_resolveTargetDisk (rule : Json) :
    (resolveTargetDisk rule).run.Always (Quiet seen) := by
  unfold resolveTargetDisk
  split_ifs
  · trivial
  · exact always_perform.mpr fun _ => rfl

theorem quiet_countdown (n : ℕ) : (countdown n).run.Always (Quiet seen) := by
  induction n with
  | zero => trivial
  | succ n ih => exact ⟨fun _ => rfl, fun _ => ih⟩

/-! ## The config -/

/-- Reports that use the config reach the api, and are of the machine. -/
structure Fits (serial : String) (cfg : ZtpConfig) : Prop where
  apiUrl : cfg.apiUrl ≠ ""
  identity : cfg.identity.serial = serial

theorem normalizeConfig_identity {settings server document : Json} {apiUrl source : String}
    {identity : Identity} {found : Bool}
    (h : normalizeConfig ps settings server apiUrl identity document found source = .ok cfg) :
    cfg.apiUrl = apiUrl ∧ cfg.identity = identity := by
  simp only [normalizeConfig, bind_eq_ok] at h
  obtain ⟨_, -, _, -, _, -, _, -, _, -, _, -, _, -, _, -, hcfg⟩ := h
  cases hcfg
  exact ⟨rfl, rfl⟩

theorem Fits.overlay {decision : PolicyDecision} {cfg' : ZtpConfig} (hfits : Fits serial cfg)
    (h : overlay ps decision cfg = .ok cfg') : Fits serial cfg' := by
  unfold Deploy.overlay at h
  split_ifs at h
  · simp only [mergePolicyConfig, bind_eq_ok] at h
    obtain ⟨_, -, _, -, _, -, _, -, _, -, hcfg⟩ := h
    cases hcfg
    exact ⟨hfits.apiUrl, hfits.identity⟩
  · cases h
    exact hfits

theorem bindMandatory_ne {param base : String} {v : Json}
    (h : ps.bindMandatory param v = .ok base) : base ≠ "" := by
  obtain ⟨text, -, h⟩ := bind_eq_ok.mp h
  split_ifs at h with hempty
  cases h
  exact hempty

theorem returns_getMachineIdentity :
    Returns (HasSerial serial) (fun i => i.serial = serial) getMachineIdentity :=
  fun _ hr i h => hr i h

/-- A config that is fetched fits. -/
theorem returns_getZtpConfig_fits (inventory : Json) :
    Returns (HasSerial serial) (Fits serial) (getZtpConfig ps inventory) := by
  unfold getZtpConfig
  refine returns_bind (returns_any _) fun settings _ => ?_
  refine returns_bind (returns_any _) fun serverUrl _ => ?_
  refine returns_bind (returns_any _) fun server _ => ?_
  refine returns_bind (returns_any _) fun api _ => ?_
  refine returns_bind returns_getMachineIdentity fun identity hidentity => ?_
  refine returns_bind (returns_except fun _ => bindMandatory_ne) fun apiUrl hurl => ?_
  refine returns_bind (returns_any _) fun resolved _ => ?_
  have hfits {document : Json} {found : Bool} {source : String} : ∀ cfg,
      normalizeConfig ps settings server apiUrl identity document found source = .ok cfg →
      Fits serial cfg := by
    intro cfg h
    obtain ⟨hapi, hid⟩ := normalizeConfig_identity h
    exact ⟨hapi ▸ hurl, hid ▸ hidentity⟩
  split_ifs
  · exact returns_except hfits
  · exact returns_bind (returns_any _) fun _ _ => returns_except hfits

/-! ## Reports -/

/-- A report is posted, unless there is no address for it. -/
theorem after_sendZtpStatus {url : Json} {identity : Identity} {state : DeployState} {percent : ℤ}
    {message : String} {Q : List Seen → Except Raised Unit → Session → Prop}
    (herror : ∀ e, ps.bindMandatory "ServerUrl" url = .error e → Q [] (.error e) s)
    (hok : ∀ uri, Q [.reported uri (statusBody identity state percent message)] (.ok ()) s) :
    After seen A (liftM (sendZtpStatus ps url identity state percent message) :
      Script Session Unit).run Q s := by
  unfold sendZtpStatus
  cases hbind : ps.bindMandatory "ServerUrl" url with
  | error e => exact after_pure (herror e hbind)
  | ok base => exact after_call fun _ _ => after_pure (hok _)

/-- The config has an address for it. -/
theorem Fits.after_sendZtpStatus (hfits : Fits serial cfg) {state : DeployState} {percent : ℤ}
    {message : String} {Q : List Seen → Except Raised Unit → Session → Prop}
    (hok : ∀ uri, Q [.reported uri (statusBody cfg.identity state percent message)] (.ok ()) s) :
    After seen A (liftM (sendZtpStatus ps (.str cfg.apiUrl) cfg.identity state percent message) :
      Script Session Unit).run Q s := by
  refine Headless.after_sendZtpStatus (fun e he => ?_) hok
  have hbind : ps.bindMandatory "ServerUrl" (.str cfg.apiUrl) = .ok cfg.apiUrl :=
    if_neg hfits.apiUrl
  rw [hbind] at he
  cases he

/-! ## What a run tells -/

/-- What is observed of a run, without the texts. -/
inductive Mark
  | report (state : DeployState)
  | engine (ok : Bool)

/-- A report of the machine in a state. -/
def IsReport (serial : String) (state : DeployState) (body : Json) : Prop :=
  ∃ (identity : Identity) (percent : Int32) (message : String), identity.serial = serial ∧
    body = statusBody identity state percent.toInt message

/-- A report of the machine in a state, or the end of the engine. -/
def Seen.Is (serial : String) : Seen → Mark → Prop
  | .reported _ body, .report state => IsReport serial state body
  | .engine _ ok, .engine ok' => ok = ok'
  | _, _ => False

abbrev Marked (serial : String) : List Seen → List Mark → Prop := List.Forall₂ (Seen.Is serial)

/-- What a run tells, by its exit code. -/
inductive Told : List Mark → ℤ → Prop
  /-- nothing was deployed: the route led elsewhere, or nothing was to be changed, or the run failed
  before there was a config -/
  | quiet (n : ℤ) : Told [] n
  /-- the policy refused the machine -/
  | refused : Told [.report .failed] 2
  /-- the run failed before it deployed -/
  | failed : Told [.report .failed] 1
  | done : Told [.report .started, .engine true, .report .succeeded] 0
  /-- the machine was deployed, and did not reboot -/
  | stranded : Told [.report .started, .engine true, .report .succeeded, .report .failed] 1
  | broken : Told [.report .started, .engine false, .report .failed] 1

/-- What a run has told when it fails. -/
inductive Running : List Mark → Prop
  | idle : Running []
  | deployed : Running [.report .started, .engine true, .report .succeeded]
  | broken : Running [.report .started, .engine false]

theorem Running.told {marks : List Mark} (h : Running marks) :
    Told (marks ++ [.report .failed]) 1 := by
  cases h with
  | idle => exact .failed
  | deployed => exact .stranded
  | broken => exact .broken

theorem Fits.isReport (hfits : Fits serial cfg) {state : DeployState} (percent : Int32)
    {message : String} :
    IsReport serial state (statusBody cfg.identity state percent.toInt message) :=
  ⟨cfg.identity, percent, message, hfits.identity, rfl⟩

theorem is_engine {plan : Plan} {ok : Bool} : (Seen.engine plan ok).Is serial (.engine ok) := rfl

/-- The part of a run that deploys, where the config of the session stays. -/
def Deploys (serial : String) (c : Option ZtpConfig) (l : List Seen) (r : Except Raised ℤ)
    (s : Session) : Prop :=
  s.cfg = c ∧ ∃ marks, Marked serial l marks ∧ match r with
    | .ok n => Told marks n
    | .error _ => Running marks

theorem after_erase (hfits : Fits serial cfg) {plan : Plan} :
    After seen A (erase ps plan cfg).run (Deploys serial s.cfg) s := by
  unfold erase
  refine after_run_bind (hfits.after_sendZtpStatus fun uri => ?_)
  refine after_change_bind ?_
  refine after_run_bind (after_call fun r _ => after_pure ?_)
  have hstarted : (Seen.reported uri (statusBody cfg.identity .started 0
      "Headless deploy begin")).Is serial (.report .started) := hfits.isReport 0
  cases r with
  | error e => exact ⟨rfl, _, .cons hstarted (.cons is_engine .nil), .broken⟩
  | ok _ =>
    refine after_run_bind (hfits.after_sendZtpStatus fun uri' => ?_)
    have hsucceeded : (Seen.reported uri' (statusBody cfg.identity .succeeded 100
        "Complete")).Is serial (.report .succeeded) := hfits.isReport 100
    have hmarks := List.Forall₂.cons hstarted
      (.cons (@is_engine serial plan true) (.cons hsucceeded .nil))
    refine after_calls_bind ⟨fun _ => rfl, fun _ => trivial⟩ (returns_any _) ?_ fun _ _ => ?_
    · exact fun e => ⟨rfl, _, hmarks, .deployed⟩
    refine after_calls_bind ⟨fun _ => rfl, fun _ => trivial⟩ (returns_any _) ?_ fun _ _ => ?_
    · exact fun e => ⟨rfl, _, hmarks, .deployed⟩
    exact after_pure ⟨rfl, _, hmarks, .done⟩

theorem deploys_error (c : Option ZtpConfig) {e : Raised} (h : s.cfg = c) :
    Deploys serial c [] (.error e) s := ⟨h, [], .nil, .idle⟩

variable {mode : Mode} {countdownSeconds : ℤ} {force whatIf : Bool}

theorem after_deploy (hfits : Fits serial cfg) :
    After seen A (deploy ps countdownSeconds force whatIf cfg).run (Deploys serial s.cfg) s := by
  unfold deploy
  refine after_calls_bind (quiet_resolveTargetDisk _) (returns_any _)
    (fun _ => deploys_error _ rfl) fun disk _ => ?_
  split_ifs
  · exact after_pure (deploys_error _ rfl)
  · exact after_pure ⟨rfl, [], .nil, .quiet 0⟩
  · exact after_calls_bind (quiet_countdown _) (returns_any _) (fun _ => deploys_error _ rfl)
      fun _ _ => after_erase hfits
  · exact after_erase hfits

/-- The part of a run that routes the machine. -/
def Routes (serial : String) (l : List Seen) (r : Except Raised Outcome) (s : Session) : Prop :=
  (∀ cfg, s.cfg = some cfg → Fits serial cfg) ∧
    match r with
    | .ok (.blocked _) => Marked serial l [.report .failed]
    | .ok (.zeroTouch cfg) => l = [] ∧ s.cfg = some cfg
    | .ok .interactive => l = []
    | .error _ => l = []

theorem after_route : After seen (HasSerial serial) (route ps mode).run (Routes serial)
    .started := by
  have hnone : ∀ cfg, Session.started.cfg = some cfg → Fits serial cfg := fun _ h => by cases h
  unfold route
  refine after_calls_bind (always_perform.mpr fun _ => rfl) returns_getMachineIdentity
    (fun _ => ⟨hnone, rfl⟩) fun identity hidentity => ?_
  refine after_calls_bind (always_perform.mpr fun _ => rfl) (returns_any _)
    (fun _ => ⟨hnone, rfl⟩) fun inv _ => ?_
  refine after_calls_bind (always_perform.mpr fun _ => rfl) (returns_any _)
    (fun _ => ⟨hnone, rfl⟩) fun _ _ => ?_
  refine after_calls_bind (always_perform.mpr fun _ => rfl) (returns_any _)
    (fun _ => ⟨hnone, rfl⟩) fun _ _ => ?_
  refine after_calls_bind (always_perform.mpr fun _ => rfl) (returns_any _)
    (fun _ => ⟨hnone, rfl⟩) fun settings _ => ?_
  refine after_except_bind (fun _ => ⟨hnone, rfl⟩) fun failAction _ => ?_
  refine after_except_bind (fun _ => ⟨hnone, rfl⟩) fun policyUrl _ => ?_
  refine after_calls_bind (quiet_invokePolicyEvaluation _ _ _) (returns_any _)
    (fun _ => ⟨hnone, rfl⟩) fun decision _ => ?_
  refine after_change_bind ?_
  cases decision.allow with
  | false =>
    refine after_except_bind (fun _ => ⟨hnone, rfl⟩) fun apiBase _ => ?_
    refine after_run_bind (after_sendZtpStatus (fun e _ => ⟨hnone, rfl⟩) fun uri => ?_)
    exact after_pure ⟨hnone, .cons ⟨identity, 0, _, hidentity, rfl⟩ .nil⟩
  | true =>
    refine after_calls_bind (quiet_getZtpConfig _) (returns_getZtpConfig_fits _)
      (fun _ => ⟨hnone, rfl⟩) fun cfg hfits => ?_
    refine after_change_bind ?_
    refine after_except_bind (fun _ => ⟨?_, rfl⟩) fun cfg' hoverlay => ?_
    · rintro _ ⟨⟩
      exact hfits
    refine after_change_bind (after_pure ⟨?_, ?_⟩)
    · rintro _ ⟨⟩
      exact hfits.overlay hoverlay
    · cases mode with
      | auto =>
        unfold followMode
        dsimp only
        split_ifs
        · exact ⟨rfl, rfl⟩
        · rfl
      | zerotouch => exact ⟨rfl, rfl⟩
      | interactive => rfl

/-- What the body of the script tells before a failure is reported. -/
def Tells (serial : String) (l : List Seen) (r : Except Raised ℤ) (s : Session) : Prop :=
  (∀ cfg, s.cfg = some cfg → Fits serial cfg) ∧ ∃ marks, Marked serial l marks ∧
    match r with
    | .ok n => Told marks n
    | .error _ => Running marks ∧ (s.cfg = none → marks = [])

theorem after_body : After seen (HasSerial serial)
    (body ps mode countdownSeconds force whatIf).run (Tells serial) .started := by
  unfold body
  refine after_run_bind (after_route.mono ?_)
  rintro l (e | outcome) s ⟨hcfg, h⟩
  · obtain rfl : l = [] := h
    exact ⟨hcfg, [], .nil, .idle, fun _ => rfl⟩
  · match outcome with
    | .blocked _ => exact after_pure ⟨hcfg, _, by rwa [List.append_nil], .refused⟩
    | .interactive =>
      obtain rfl : l = [] := h
      refine after_run_calls (always_perform.mpr fun _ => rfl) (returns_any _) ?_
      rintro (e | n) -
      · exact ⟨hcfg, [], .nil, .idle, fun _ => rfl⟩
      · exact ⟨hcfg, [], .nil, .quiet n⟩
    | .zeroTouch cfg =>
      obtain ⟨rfl, hs⟩ := h
      refine (after_deploy (hcfg cfg hs)).mono ?_
      rintro l r s' ⟨hs', marks, hmarks, htold⟩
      have hsome : s'.cfg = some cfg := hs'.trans hs
      refine ⟨fun c hc => hcfg c (hs' ▸ hc), marks, hmarks, ?_⟩
      cases r with
      | ok n => exact htold
      | error e => exact ⟨htold, fun hnone => by rw [hnone] at hsome; cases hsome⟩

/-- **What a run tells.** -/
theorem after_invokeDeploy : After seen (HasSerial serial)
    (invokeDeploy ps mode countdownSeconds force whatIf)
    (fun l n _ => ∃ marks, Marked serial l marks ∧ Told marks n) .started := by
  unfold invokeDeploy
  refine after_bind (after_body.mono ?_)
  rintro l (e | n) s ⟨hcfg, marks, hmarks, h⟩
  · refine after_bind ?_
    unfold reportFailure
    refine after_change_bind ?_
    simp only [id_eq]
    obtain ⟨hrunning, hnone⟩ := h
    cases hs : s.cfg with
    | none =>
      obtain rfl := hnone hs
      exact after_pure (after_pure ⟨[], by simpa using hmarks, .quiet 1⟩)
    | some cfg =>
      have hfits := hcfg cfg hs
      refine hfits.after_sendZtpStatus fun uri => after_pure ⟨_, ?_, hrunning.told⟩
      rw [List.append_nil]
      exact List.rel_append hmarks (.cons (hfits.isReport 0) .nil)
  · exact after_pure ⟨marks, by rwa [List.append_nil], h⟩

/-! ## What the fleet view shows -/

def agentState : DeployState → Fleet.AgentState
  | .started => .started
  | .progress => .progress
  | .succeeded => .succeeded
  | .failed => .failed

/-- The bodies that are posted to the api: the reports of the run, and the engine's of its
progress. -/
inductive Posts (serial : String) : List Seen → List Json → Prop
  | nil : Posts serial [] []
  | reported {uri : String} {body : Json} {l : List Seen} {bodies : List Json}
    (h : Posts serial l bodies) : Posts serial (.reported uri body :: l) (body :: bodies)
  | engine {plan : Plan} {ok : Bool} {l : List Seen} {progress bodies : List Json}
    (hprogress : ∀ body ∈ progress, IsReport serial .progress body) (h : Posts serial l bodies) :
    Posts serial (.engine plan ok :: l) (progress ++ bodies)

theorem Posts.eq_nil {bodies : List Json} (h : Posts serial [] bodies) : bodies = [] := by
  cases h
  rfl

/-- A report through the api and the admin. -/
def receive (st : Fleet.Store) (r : String × Json) : Fleet.Store :=
  match Fleet.handleReport r.2 with
  | none => st
  | some report => (st.handleIngestStatus r.1 report.toJson).1

/-- The view has one row of the machine, in the state. -/
def Shows (st : Fleet.Store) (serial : String) (state : DeployState) : Prop :=
  (st.fleet.filter fun m => m.serial = serial).map Fleet.Machine.state = [state.text]

theorem agentState_name (state : DeployState) : (agentState state).name = state.text := by
  cases state <;> rfl

/-- A report is one that the fleet's model of the agent makes. -/
theorem IsReport.exists_call {body : Json} {state : DeployState} (hserial : serial ≠ "")
    (h : IsReport serial state body) :
    ∃ c : Fleet.Call, c.body = body ∧ c.serial = serial ∧ c.state = agentState state := by
  obtain ⟨identity, percent, message, rfl, rfl⟩ := h
  have hmac (o : Option String) : Fleet.jsonOfString? o = optional o := by cases o <;> rfl
  have hbody : Fleet.sendZtpStatus ⟨identity.serial, identity.mac, identity.model, hserial⟩
      (agentState state) percent message =
      statusBody identity state percent.toInt message := by
    rw [Fleet.sendZtpStatus, statusBody, hmac, hmac, agentState_name]
  exact ⟨⟨_, _, percent, message⟩, hbody, rfl, rfl⟩

/-- The last report of a run is posted last, whatever the engine reports in between. -/
theorem exists_last_report {l : List Seen} {marks : List Mark} {bodies : List Json}
    {state : DeployState} (hmarks : Marked serial l marks) (hposts : Posts serial l bodies)
    (hlast : marks.getLast? = some (.report state)) :
    ∃ before body, bodies = before ++ [body] ∧ IsReport serial state body := by
  induction hmarks generalizing bodies with
  | nil => cases hlast
  | @cons x mark l marks h htail ih =>
    cases marks with
    | nil =>
      obtain rfl : mark = .report state := Option.some.inj hlast
      cases htail
      cases hposts with
      | @reported _ body _ _ hposts =>
        cases hposts
        exact ⟨[], body, rfl, h⟩
      | engine _ _ => exact h.elim
    | cons mark' marks =>
      rw [List.getLast?_cons_cons] at hlast
      cases hposts with
      | @reported _ first _ _ hposts =>
        obtain ⟨before, body, rfl, hbody⟩ := ih hposts hlast
        exact ⟨first :: before, body, rfl, hbody⟩
      | @engine _ _ _ progress _ _ hposts =>
        obtain ⟨before, body, rfl, hbody⟩ := ih hposts hlast
        exact ⟨progress ++ before, body, (List.append_assoc ..).symm, hbody⟩

/-- The last report of a machine is what the view shows of it. -/
theorem shows_receive {st : Fleet.Store} {now : String} {body : Json} {state : DeployState}
    (hserial : serial ≠ "") (h : IsReport serial state body) :
    Shows (receive st (now, body)) serial state := by
  obtain ⟨c, rfl, rfl, hstate⟩ := h.exists_call hserial
  change ((c.deliver now st).fleet.filter _).map _ = _
  rw [Fleet.fleet_filter, Fleet.deliver_statuses, Latest.last_concat]
  simp [Fleet.Store.statusEvent, Fleet.machineOf, hstate, agentState_name]

/-- **What the fleet view shows of a deployment.** Every run of the headless script that ends makes
one of six sequences of reports and runs of the engine, each with its exit code. Once its reports
are received in order, with those of the engine's progress among them, the view shows the last of
them if the machine has a serial; if there was none, nothing was received. -/
theorem shows_deployment (ps : PowerShell) (mode : Mode) (countdownSeconds : ℤ)
    (force whatIf : Bool) (serial : String) (t : List (Answered Call.Answer)) (n : ℤ) (s : Session)
    (h : Does (invokeDeploy ps mode countdownSeconds force whatIf) .started t n s)
    (ht : GrantedAll (HasSerial serial) t) :
    ∃ marks, Marked serial (t.flatMap seen) marks ∧ Told marks n ∧
      ∀ (received : List (String × Json)) (st : Fleet.Store),
        Posts serial (t.flatMap seen) (received.map Prod.snd) →
        (marks = [] → received.foldl receive st = st) ∧
        (serial ≠ "" → ∀ state, marks.getLast? = some (.report state) →
          Shows (received.foldl receive st) serial state) := by
  obtain ⟨marks, hmarks, htold⟩ := after_invokeDeploy t n s h ht
  refine ⟨marks, hmarks, htold, fun received st hposts =>
    ⟨fun hnil => ?_, fun hserial state hlast => ?_⟩⟩
  · rw [hnil] at hmarks
    rw [List.forall₂_nil_right_iff.mp hmarks] at hposts
    obtain rfl : received = [] := List.map_eq_nil_iff.mp hposts.eq_nil
    rfl
  · obtain ⟨bodies, body, hbodies, hbody⟩ := exists_last_report hmarks hposts hlast
    obtain ⟨before, after, rfl, -, hafter⟩ := List.map_eq_append_iff.mp hbodies
    obtain ⟨⟨now, body'⟩, rfl, rfl⟩ := List.map_eq_singleton_iff.mp hafter
    rw [List.foldl_append]
    exact shows_receive hserial hbody

/-- The config of a machine that is deployed without being asked. -/
def deployedConfig : Json :=
  .obj [("computerName", .str "PC"), ("confirmWipe", .bool false), ("imageUrl", .str "i"),
    ("mode", .str "zerotouch"), ("targetDisk", .str "first"),
    ("unattend", .obj [("JOINDOMAIN", .str "")])]

/-- Answers of a machine that is enrolled and allowed, and reboots. -/
def deployedAnswers : (c : Call) → c.Answer
  | .getMachineIdentity => .ok ⟨"S1", "S1", none, none⟩
  | .getInventory => .ok (.obj [])
  | .getZtpSettings => .ok (.obj [("serverUrl", .str "s"), ("policyUrl", .str "u"),
      ("defaults", deployedConfig)])
  | .postPolicy _ _ => .answered 200 (PowerShell.plain.convertToJson
      (.obj [("result", .obj [("action", .str "allow")])]))
  | .postResolve _ _ => .answered 200 (PowerShell.plain.convertToJson deployedConfig)
  | .get _ => .failed ""
  | .sendZtpJson _ _ | .startSleep _ => ()
  | .resolveTargetDisk _ | .launchGui => .ok 0
  | .saveInventory _ | .formatInventorySummary _ | .getDeployDisks | .invokeDeployment _
  | .beginInvoke _ _ | .reboot => .ok ()

def deployedRun : List (Answered Call.Answer) × ℤ × Session :=
  play deployedAnswers (invokeDeploy .plain .auto 10 false false) .started

theorem length_deployedRun : (deployedRun.1.flatMap seen).length = 3 := by decide +kernel

theorem code_deployedRun : deployedRun.2.1 = 0 := by decide +kernel

theorem does_deployedRun : Does (invokeDeploy .plain .auto 10 false false) .started deployedRun.1
    deployedRun.2.1 deployedRun.2.2 := by
  rw [deployedRun]
  exact does_play _ _ _

theorem granted_deployedRun : GrantedAll (HasSerial "S1") deployedRun.1 := by
  rw [deployedRun]
  refine granted_play (fun c => ?_) _ _
  cases c with
  | getMachineIdentity =>
    rintro _ ⟨⟩
    rfl
  | _ => trivial

/-- It reports twice, with one run of the engine in between. -/
theorem shows_deployment_deployed :
    (deployedRun.1.flatMap seen).length = 3 ∧ deployedRun.2.1 = 0 ∧
      ∃ marks, Marked "S1" (deployedRun.1.flatMap seen) marks ∧ Told marks deployedRun.2.1 ∧
        ∀ (received : List (String × Json)) (st : Fleet.Store),
          Posts "S1" (deployedRun.1.flatMap seen) (received.map Prod.snd) →
          (marks = [] → received.foldl receive st = st) ∧
          ("S1" ≠ "" → ∀ state, marks.getLast? = some (.report state) →
            Shows (received.foldl receive st) "S1" state) :=
  ⟨length_deployedRun, code_deployedRun, shows_deployment .plain .auto 10 false false "S1" _ _ _
    does_deployedRun granted_deployedRun⟩

end WinDep.Deploy.Headless
