/-
# The hard gate

A deployment is entered only while the most recent evaluation of the policy
allowed it. In the front-end the gate is spread over panels, timers and handlers
that start a deployment without asking again: where a deployment can be started
the gate is open, and where the policy is asked no countdown runs.
-/

import WinDep.Deploy.Window

namespace WinDep.Deploy

open Json Program Handler

/-! ## Histories -/

/-- The decision of the most recent evaluation. -/
def lastDecision (history : List Action) : Option PolicyDecision :=
  history.foldl (fun last a =>
    match a with
    | .evaluated decision => some decision
    | .entered _ => last) none

/-- The most recent evaluation allowed. -/
def GateOpen (history : List Action) : Prop :=
  ∃ decision, lastDecision history = some decision ∧ decision.allow = true

/-- Every deployment was entered while the gate was open. -/
def Gated (history : List Action) : Prop :=
  ∀ before plan after, history = before ++ .entered plan :: after → GateOpen before

variable {history : List Action} {decision : PolicyDecision} {plan : Plan} {a : Action}

theorem gated_nil : Gated [] := by
  intro before plan after h
  exact absurd h (by simp)

/-- One more action keeps a history gated, if the gate is open when it enters a deployment. -/
theorem Gated.append (h : Gated history) (ha : ∀ plan, a = .entered plan → GateOpen history) :
    Gated (history ++ [a]) := by
  intro before plan after heq
  -- the deployment is the new action, or one of the old history
  rcases List.eq_nil_or_concat after with rfl | ⟨after', b, rfl⟩
  · obtain ⟨rfl, hlast⟩ := List.append_inj' heq rfl
    exact ha plan (by simpa using hlast)
  · rw [List.concat_eq_append, ← List.cons_append, ← List.append_assoc] at heq
    exact h before plan after' (List.append_inj' heq rfl).1

@[simp] theorem lastDecision_evaluated :
    lastDecision (history ++ [.evaluated decision]) = some decision := by
  simp [lastDecision]

@[simp] theorem gateOpen_entered : GateOpen (history ++ [.entered plan]) ↔ GateOpen history := by
  simp [GateOpen, lastDecision]

theorem gateOpen_evaluated :
    GateOpen (history ++ [.evaluated decision]) ↔ decision.allow = true := by
  simp [GateOpen]

theorem Gated.evaluated (h : Gated history) : Gated (history ++ [.evaluated decision]) :=
  h.append nofun

theorem Gated.entered (h : Gated history) (hopen : GateOpen history) :
    Gated (history ++ [.entered plan]) := h.append fun _ _ => hopen

/-! ## Scripts -/

section

variable {σ α β : Type} {D : Discipline σ} {s : σ} {Q : Except Raised β → σ → Prop}
  {g : α → Script σ β}

/-- A script that calls first: it goes on with any answer, or ends with any error. -/
theorem wp_calls_bind {y : Calls α} (hs : D.safe s) (herror : ∀ e, Q (.error e) s)
    (hok : ∀ a, wp D (g a).run Q s) :
    wp D ((liftM y : Script σ α) >>= g).run Q s := by
  rw [wp_run_bind]
  apply wp_run_calls hs
  rintro (e | a)
  · exact herror e
  · exact hok a

/-- A script that computes first. -/
theorem wp_except_bind {y : Except Raised α} (herror : ∀ e, Q (.error e) s)
    (hok : ∀ a, wp D (g a).run Q s) :
    wp D ((liftM y : Script σ α) >>= g).run Q s := by
  cases y with
  | error e => exact herror e
  | ok a => exact hok a

end

/-- A machine that is not blocked was allowed. -/
def Passes (history : List Action) : Except Raised Outcome → Prop
  | .error _ => True
  | .ok (.blocked _) => True
  | .ok _ => GateOpen history

theorem passes_of_open {r : Except Raised Outcome} (h : GateOpen history) : Passes history r := by
  rcases r with _ | (_ | _ | _)
  · trivial
  · trivial
  · exact h
  · exact h

/-! ## The headless script -/

namespace Headless

variable {ps : PowerShell} {mode : Mode} {s : Session}

/-- Nothing runs beside the script, and its history is gated throughout. -/
def discipline : Discipline Session := ⟨(Gated ·.history), (Gated ·.history), fun _ _ => True⟩

theorem wp_record_bind {α : Type} {g : Unit → Script Session α}
    {Q : Except Raised α → Session → Prop} {a : Action} :
    wp discipline (record a >>= g).run Q s ↔
      wp discipline (g ()).run Q { s with history := s.history ++ [a] } := Iff.rfl

theorem wp_keepConfig_bind {α : Type} {g : Unit → Script Session α}
    {Q : Except Raised α → Session → Prop} {cfg : ZtpConfig} :
    wp discipline (keepConfig cfg >>= g).run Q s ↔
      wp discipline (g ()).run Q { s with cfg := some cfg } := Iff.rfl

/-- What follows a decision that allows: the machine passes with the gate open. -/
theorem wp_route (hs : Gated s.history) :
    wp discipline (route ps mode).run (fun r s' => Gated s'.history ∧ Passes s'.history r) s := by
  have herror {s : Session} (hs : Gated s.history) (e : Raised) :
      Gated s.history ∧ Passes s.history (.error e) := ⟨hs, trivial⟩
  unfold route
  refine wp_calls_bind hs (herror hs) fun identity => ?_
  refine wp_calls_bind hs (herror hs) fun inv => ?_
  refine wp_calls_bind hs (herror hs) fun _ => ?_
  refine wp_calls_bind hs (herror hs) fun _ => ?_
  refine wp_calls_bind hs (herror hs) fun settings => ?_
  refine wp_except_bind (herror hs) fun failAction => ?_
  refine wp_except_bind (herror hs) fun policyUrl => ?_
  refine wp_calls_bind hs (herror hs) fun decision => ?_
  rw [wp_record_bind]
  -- to ask the policy is never a deployment; from here on its decision is the last one
  have hgated : Gated (s.history ++ [.evaluated decision]) := hs.evaluated
  cases hallow : decision.allow with
  | false =>
    simp only [Bool.not_false, if_true]
    refine wp_except_bind (herror hgated) fun apiBase => ?_
    refine wp_calls_bind hgated (herror hgated) fun _ => ?_
    exact ⟨hgated, trivial⟩
  | true =>
    have hopen : GateOpen (s.history ++ [.evaluated decision]) := gateOpen_evaluated.mpr hallow
    simp only [Bool.not_true, Bool.false_eq_true, if_false]
    refine wp_calls_bind hgated (herror hgated) fun cfg => ?_
    rw [wp_keepConfig_bind]
    refine wp_except_bind (herror hgated) fun cfg => ?_
    exact ⟨hgated, passes_of_open hopen⟩

theorem wp_erase {plan : Plan} {cfg : ZtpConfig} (hs : Gated s.history)
    (hopen : GateOpen s.history) :
    wp discipline (erase ps plan cfg).run (fun _ s' => Gated s'.history) s := by
  unfold erase
  refine wp_calls_bind hs (fun _ => hs) fun _ => ?_
  rw [wp_record_bind]
  -- what follows only calls
  have hentered : Gated (s.history ++ [.entered plan]) := hs.entered hopen
  refine wp_calls_bind hentered (fun _ => hentered) fun _ => ?_
  refine wp_calls_bind hentered (fun _ => hentered) fun _ => ?_
  refine wp_calls_bind hentered (fun _ => hentered) fun _ => ?_
  refine wp_calls_bind hentered (fun _ => hentered) fun _ => ?_
  exact hentered

theorem wp_deploy {countdownSeconds : ℤ} {force whatIf : Bool} {cfg : ZtpConfig}
    (hs : Gated s.history) (hopen : GateOpen s.history) :
    wp discipline (deploy ps countdownSeconds force whatIf cfg).run
      (fun _ s' => Gated s'.history) s := by
  unfold deploy
  refine wp_calls_bind hs (fun _ => hs) fun disk => ?_
  split_ifs
  · exact hs
  · exact hs
  · exact wp_calls_bind hs (fun _ => hs) fun _ => wp_erase hs hopen
  · exact wp_erase hs hopen

theorem wp_body {countdownSeconds : ℤ} {force whatIf : Bool} (hs : Gated s.history) :
    wp discipline (body ps mode countdownSeconds force whatIf).run
      (fun _ s' => Gated s'.history) s := by
  unfold body
  rw [wp_run_bind]
  apply (wp_route hs).mono
  rintro (e | decision | cfg | _) s' ⟨hgated, hpasses⟩
  · exact hgated
  · exact hgated
  · exact wp_deploy hgated hpasses
  · exact wp_run_calls hgated fun _ => hgated

/-- The script keeps its history gated, whatever its calls are answered. -/
theorem wp_invokeDeploy {countdownSeconds : ℤ} {force whatIf : Bool} (hs : Gated s.history) :
    wp discipline (invokeDeploy ps mode countdownSeconds force whatIf)
      (fun _ s' => Gated s'.history) s := by
  unfold invokeDeploy
  rw [wp_bind]
  apply (wp_body hs).mono
  rintro (e | code) s' hgated
  · rw [wp_bind]
    -- the report is sent if the script got as far as a config
    obtain ⟨cfg, history⟩ := s'
    cases cfg with
    | none => exact hgated
    | some cfg =>
      change wp discipline (liftM (sendZtpStatus ps (.str cfg.apiUrl) cfg.identity .failed 0
        (ps.message e)) : Script Session Unit).run _ _
      exact wp_run_calls hgated fun _ => hgated
  · exact hgated

theorem keeps {countdownSeconds : ℤ} {force whatIf : Bool} :
    Loop.Keeps (handler ps mode countdownSeconds force whatIf) discipline (Gated ·.history) where
  at_rest _ _ h := wp_bind.mpr (wp_invokeDeploy h)
  on_top _ _ h := wp_bind.mpr ((wp_invokeDeploy h).mono fun _ _ h => ⟨h, trivial⟩)
  trans _ _ _ _ _ := trivial
  refl _ := trivial

/-- The history of the script is gated in every run. -/
theorem gated_run {countdownSeconds : ℤ} {force whatIf : Bool}
    (inputs : List (Input Unit Call.Answer)) :
    Gated (Loop.run (handler ps mode countdownSeconds force whatIf) inputs
      .started).shared.history :=
  keeps.run_invariant (fun _ h => h) (fun _ h => h) (fun _ h => h) inputs gated_nil

end Headless

/-! ## The front-end -/

namespace Window

variable {ps : PowerShell} {identity : Identity} {apiUrl : Json} {ui ui' : Ui}

/-- The policy is asked: the window shows progress, and nothing counts down. -/
structure Held (ui : Ui) : Prop where
  gated : Gated ui.history
  panel : ui.panel = .progress
  countdowns : ui.countdowns = []
  autoRouted : ui.autoRouted = true

/-- No handler runs: where a deployment can be started the gate is open, and from the panel that
asks the policy again nothing counts down. -/
structure AtRest (ui : Ui) : Prop where
  gated : Gated ui.history
  armed : ui.panel = .mode ∨ ui.panel = .config → GateOpen ui.history
  counting : ui.countdowns ≠ [] → GateOpen ui.history ∧ ui.panel = .progress
  fresh : ui.autoRouted = false → ui.panel = .progress ∧ ui.countdowns = []

/-- Other events may come while the policy is asked, and leave the history as it is. -/
def discipline : Discipline Ui := ⟨(Gated ·.history), Held, fun ui ui' => ui'.history = ui.history⟩

theorem Held.atRest (h : Held ui) : AtRest ui where
  gated := h.gated
  armed := by simp [h.panel]
  counting := by simp [h.countdowns]
  fresh := by simp [h.autoRouted]

/-- Once the gate is open the window may show any panel, and count down behind the progress. -/
theorem atRest_of_open (hgated : Gated ui.history) (hopen : GateOpen ui.history)
    (hrouted : ui.autoRouted = true) (hpanel : ui.countdowns = [] ∨ ui.panel = .progress) :
    AtRest ui where
  gated := hgated
  armed _ := hopen
  counting hne := ⟨hopen, hpanel.resolve_left hne⟩
  fresh := by simp [hrouted]

theorem AtRest.routed (h : AtRest ui) (hpanel : ui.panel ≠ .progress) : ui.autoRouted = true := by
  by_contra hfresh
  exact hpanel (h.fresh (by simpa using hfresh)).1

theorem AtRest.countdowns (h : AtRest ui) (hpanel : ui.panel ≠ .progress) : ui.countdowns = [] := by
  by_contra hne
  exact hpanel (h.counting hne).2

section

variable {α : Type} {g : Unit → Script Ui α} {Q : Except Raised α → Ui → Prop}

theorem wp_update_bind {f : Ui → Ui} :
    wp discipline (update f >>= g).run Q ui ↔ wp discipline (g ()).run Q (f ui) := Iff.rfl

theorem wp_render_bind :
    wp discipline (render >>= g).run Q ui ↔
      Held ui ∧ ∀ ui', Held ui' → ui'.history = ui.history → wp discipline (g ()).run Q ui' :=
  Iff.rfl

end

/-! ### The route -/

/-- The gate is open if the machine passes, and the window is held throughout. -/
theorem wp_autoRoute (hgated : Gated ui.history) (hnone : ui.countdowns = [])
    (hrouted : ui.autoRouted = true) :
    wp discipline (autoRoute ps identity apiUrl).run
      (fun r ui' => Held ui' ∧ Passes ui'.history (r.map Prod.snd)) ui := by
  have herror {ui : Ui} (h : Held ui) (e : Raised) :
      Held ui ∧
        Passes ui.history ((Except.error e : Except Raised (Json × Outcome)).map Prod.snd) :=
    ⟨h, trivial⟩
  unfold autoRoute
  rw [showPanel, wp_update_bind, setFinish, wp_update_bind, wp_render_bind]
  refine ⟨⟨hgated, rfl, hnone, hrouted⟩, fun ui hui _ => ?_⟩
  refine wp_calls_bind hui.gated (herror hui) fun inv => ?_
  refine wp_calls_bind hui.gated (herror hui) fun _ => ?_
  refine wp_calls_bind hui.gated (herror hui) fun _ => ?_
  refine wp_calls_bind hui.gated (herror hui) fun settings => ?_
  rw [wp_render_bind]
  refine ⟨hui, fun ui hui _ => ?_⟩
  refine wp_except_bind (herror hui) fun policyUrl => ?_
  refine wp_except_bind (herror hui) fun failAction => ?_
  refine wp_calls_bind hui.gated (herror hui) fun decision => ?_
  rw [record, wp_update_bind]
  have hheld : Held { ui with history := ui.history ++ [.evaluated decision] } :=
    ⟨hui.gated.evaluated, hui.panel, hui.countdowns, hui.autoRouted⟩
  refine wp_calls_bind hheld.gated (herror hheld) fun _ => ?_
  cases hallow : decision.allow with
  | false => exact ⟨hheld, trivial⟩
  | true =>
    simp only [Bool.not_true, Bool.false_eq_true, if_false]
    rw [wp_render_bind]
    refine ⟨hheld, fun ui' hui' hhistory => ?_⟩
    -- whatever came while the window rendered, the decision is still the last one
    have hopen : GateOpen ui'.history := by
      rw [hhistory]
      exact gateOpen_evaluated.mpr hallow
    rw [wp_run_bind, wp_run_attempt]
    apply wp_run_calls hui'.gated
    rintro (e | cfg)
    · exact ⟨hui', hopen⟩
    · refine wp_except_bind (herror hui') fun cfg => ?_
      exact ⟨hui', passes_of_open hopen⟩

/-! ### What starts a deployment -/

theorem wp_startDeploymentWorker {plan : Plan} {serverUrl : Json} (h : AtRest ui)
    (hopen : GateOpen ui.history) (hrouted : ui.autoRouted = true) :
    wp discipline (startDeploymentWorker ps plan serverUrl).run (fun _ => AtRest) ui := by
  unfold startDeploymentWorker
  refine wp_except_bind (fun _ => h) fun serverUrl => ?_
  rw [record, wp_update_bind, showPanel, wp_update_bind, setFinish, wp_update_bind]
  have hentered : Gated (ui.history ++ [.entered plan]) := h.gated.entered hopen
  have hrest (pumps : ℕ) : AtRest { ui with
      history := ui.history ++ [.entered plan], panel := .progress, finish := false,
      pumps := pumps } :=
    atRest_of_open hentered (gateOpen_entered.mpr hopen) hrouted (.inr rfl)
  exact wp_calls_bind hentered (fun _ => hrest _) fun _ => hrest _

/-- The countdown starts behind the progress panel. -/
theorem wp_startZeroTouch {config : Option ZtpConfig} (hgated : Gated ui.history)
    (hopen : GateOpen ui.history) (hrouted : ui.autoRouted = true) :
    wp discipline (startZeroTouch ps config).run (fun _ => AtRest) ui := by
  have hrest (countdowns : List Countdown) :
      AtRest { ui with panel := .progress, countdowns := countdowns } :=
    atRest_of_open hgated hopen hrouted (.inr rfl)
  have hplan (cfg : ZtpConfig) : wp discipline ((do
      let disk ← resolveTargetDisk cfg.diskRule
      let plan : Plan := ⟨disk, cfg.computerName, cfg.imageUrl, some "unattend.template.xml",
        cfg.unattend⟩
      update fun ui => { ui with
        countdowns := ui.countdowns ++ [⟨plan, cfg.apiUrl⟩] } : Script Ui Unit).run)
      (fun _ => AtRest) { ui with panel := .progress } :=
    wp_calls_bind hgated (fun _ => hrest _) fun _ => hrest _
  unfold startZeroTouch
  rw [showPanel, wp_update_bind]
  cases config with
  | some cfg => exact hplan cfg
  | none =>
    rw [wp_run_bind, wp_run_attempt]
    apply wp_run_calls hgated
    rintro (e | cfg)
    · exact hrest _
    · exact hplan cfg

theorem wp_startAutoRoute (hgated : Gated ui.history) (hnone : ui.countdowns = [])
    (hrouted : ui.autoRouted = true) :
    wp discipline (startAutoRoute ps identity apiUrl).run (fun _ => AtRest) ui := by
  unfold startAutoRoute
  rw [wp_run_bind]
  apply (wp_autoRoute hgated hnone hrouted).mono
  rintro (e | ⟨inv, decision | cfg | _⟩) ui' ⟨hheld, hpasses⟩
  · exact hheld.atRest
  · -- the remediation screen starts nothing
    refine wp_calls_bind hheld.gated (fun _ => hheld.atRest) fun _ => ?_
    exact ⟨hheld.gated, by simp, fun hne => absurd hheld.countdowns hne,
      by simp [hheld.autoRouted]⟩
  · exact wp_startZeroTouch hheld.gated hpasses hheld.autoRouted
  · refine wp_calls_bind hheld.gated (fun _ => hheld.atRest) fun _ => ?_
    exact atRest_of_open hheld.gated hpasses hheld.autoRouted (.inl hheld.countdowns)

/-! ### Events at rest -/

theorem AtRest.close (h : AtRest ui) : AtRest { ui with closed := true } :=
  ⟨h.gated, h.armed, h.counting, h.fresh⟩

/-- The button lies on the visible panel or in the footer. -/
theorem panel_of_offers {b : Button} (h : ui.offers b = true) :
    b.panel = none ∨ b.panel = some ui.panel := by
  simp only [Ui.offers, Bool.and_eq_true, Bool.or_eq_true, beq_iff_eq] at h
  exact h.1.2.imp Option.isNone_iff_eq_none.mp id

theorem wp_deployClick {form : Form} (h : AtRest ui) (hpanel : ui.panel = .config) :
    wp discipline (onClick ps identity apiUrl form ui .deploy).run (fun _ => AtRest) ui := by
  have hrouted := h.routed (by simp [hpanel])
  have hopen := h.armed (.inr hpanel)
  simp only [onClick]
  split_ifs
  · rw [wp_run_bind, wp_run_attempt]
    exact wp_except_bind (fun _ => h) fun plan => wp_startDeploymentWorker h hopen hrouted
  · exact h

/-- A click on a button of the visible panel. -/
theorem wp_onClick {b : Button} {form : Form} (h : AtRest ui) (hoffers : ui.offers b = true) :
    wp discipline (onClick ps identity apiUrl form ui b).run (fun _ => AtRest) ui := by
  have hpanel := panel_of_offers hoffers
  cases b with
  | interactive =>
    obtain hmode : .mode = ui.panel := by simpa [Button.panel] using hpanel
    have hnone := h.countdowns (by simp [← hmode])
    have hrouted := h.routed (by simp [← hmode])
    exact wp_calls_bind h.gated (fun _ => h) fun _ =>
      atRest_of_open h.gated (h.armed (.inl hmode.symm)) hrouted (.inl hnone)
  | zeroTouch =>
    -- the config is fetched again, the policy is not asked again
    obtain hmode : .mode = ui.panel := by simpa [Button.panel] using hpanel
    simp only [onClick]
    exact wp_startZeroTouch h.gated (h.armed (.inl hmode.symm)) (h.routed (by simp [← hmode]))
  | back =>
    obtain hconfig : .config = ui.panel := by simpa [Button.panel] using hpanel
    have hnone := h.countdowns (by simp [← hconfig])
    have hrouted := h.routed (by simp [← hconfig])
    have hrest : AtRest { ui with panel := .mode } :=
      atRest_of_open h.gated (h.armed (.inr hconfig.symm)) hrouted (.inl hnone)
    exact hrest
  | deploy =>
    obtain hconfig : .config = ui.panel := by simpa [Button.panel] using hpanel
    exact wp_deployClick h hconfig.symm
  | finish =>
    simp only [onClick]
    split_ifs
    · exact wp_run_calls h.gated fun _ => ⟨h.gated, h.armed, h.counting, h.fresh⟩
    · exact h.close
  | policyExit => exact h.close
  | recheck =>
    -- the remediation screen hides what could count down
    obtain hpolicy : .policy = ui.panel := by simpa [Button.panel] using hpanel
    exact wp_startAutoRoute h.gated (h.countdowns (by simp [← hpolicy]))
      (h.routed (by simp [← hpolicy]))
  | quit => exact h.close

theorem AtRest.erase (h : AtRest ui) (i : ℕ) :
    AtRest { ui with countdowns := ui.countdowns.eraseIdx i } where
  gated := h.gated
  armed := h.armed
  counting hne := h.counting fun hnil => hne (by simp [hnil])
  fresh hfresh := ⟨(h.fresh hfresh).1, by simp [(h.fresh hfresh).2]⟩

theorem wp_onCountdownTick {i : ℕ} {scope : TickScope} (h : AtRest ui) :
    wp discipline (onCountdownTick ps i scope ui).run (fun _ => AtRest) ui := by
  unfold onCountdownTick
  split
  · exact h
  · exact h
  · next countdown secs hget hsecs =>
    -- a countdown runs, so the gate was open when it started and still is
    have hne : ui.countdowns ≠ [] := by
      intro hnil
      simp [hnil] at hget
    have hopen := (h.counting hne).1
    have hrouted : ui.autoRouted = true := by
      by_contra hfresh
      exact hne (h.fresh (by simpa using hfresh)).2
    split_ifs
    · exact h
    · exact h
    · rw [wp_update_bind]
      exact wp_startDeploymentWorker (h.erase i) hopen hrouted

theorem wp_onPumpTick {locals : Bool} {progress : Progress} (h : AtRest ui) :
    wp discipline (onPumpTick locals progress ui).run (fun _ => AtRest) ui := by
  unfold onPumpTick
  split_ifs
  · exact h
  · exact h
  · cases progress with
    | working => exact h
    | done => exact ⟨h.gated, h.armed, h.counting, h.fresh⟩
    | failed => exact ⟨h.gated, h.armed, h.counting, h.fresh⟩

theorem wp_onEvent {e : Event} (h : AtRest ui) :
    wp discipline (onEvent ps identity apiUrl e ui).run (fun _ => AtRest) ui := by
  cases e with
  | contentRendered =>
    simp only [onEvent]
    split_ifs with hrouted
    · exact h
    · rw [wp_update_bind]
      exact wp_startAutoRoute h.gated (h.fresh (by simpa using hrouted)).2 rfl
  | click b form =>
    simp only [onEvent]
    split_ifs with hoffers
    · exact wp_onClick h hoffers
    · exact h
  | countdownTick i scope => exact wp_onCountdownTick h
  | pumpTick locals progress => exact wp_onPumpTick h
  | rebootTick =>
    simp only [onEvent]
    split_ifs
    · exact wp_run_calls h.gated fun _ => h
    · exact h
  | closing => exact h.close

/-! ### Events while the policy is asked -/

/-- Only the footer, the end of an earlier deployment and a pending reboot are left, and none of
them touches the gate. -/
theorem wp_onEvent_held {e : Event} (h : Held ui) :
    wp discipline (onEvent ps identity apiUrl e ui).run
      (fun _ ui' => Held ui' ∧ ui'.history = ui.history) ui := by
  have hsame : Held ui ∧ ui.history = ui.history := ⟨h, rfl⟩
  cases e with
  | contentRendered => simpa [onEvent, h.autoRouted] using hsame
  | click b form =>
    simp only [onEvent]
    split_ifs with hoffers
    · have hpanel := panel_of_offers hoffers
      rw [h.panel] at hpanel
      cases b with
      | finish =>
        simp only [onClick]
        split_ifs
        · exact wp_run_calls h.gated fun _ =>
            ⟨⟨h.gated, h.panel, h.countdowns, h.autoRouted⟩, rfl⟩
        · exact ⟨⟨h.gated, h.panel, h.countdowns, h.autoRouted⟩, rfl⟩
      | quit => exact ⟨⟨h.gated, h.panel, h.countdowns, h.autoRouted⟩, rfl⟩
      -- the others lie on panels that are hidden
      | _ => simp [Button.panel] at hpanel
    · exact hsame
  | countdownTick i scope => simpa [onEvent, onCountdownTick, h.countdowns] using hsame
  | pumpTick locals progress =>
    simp only [onEvent, onPumpTick]
    split_ifs
    · exact hsame
    · exact hsame
    · cases progress with
      | working => exact hsame
      | done => exact ⟨⟨h.gated, h.panel, h.countdowns, h.autoRouted⟩, rfl⟩
      | failed => exact ⟨⟨h.gated, h.panel, h.countdowns, h.autoRouted⟩, rfl⟩
  | rebootTick =>
    simp only [onEvent]
    split_ifs
    · exact wp_run_calls h.gated fun _ => hsame
    · exact hsame
  | closing => exact ⟨⟨h.gated, h.panel, h.countdowns, h.autoRouted⟩, rfl⟩

/-- Every handler keeps to the discipline. -/
theorem keeps : Loop.Keeps (handler ps identity apiUrl) discipline AtRest where
  at_rest _ _ h := wp_bind.mpr (wp_onEvent h)
  on_top _ _ h := wp_bind.mpr (wp_onEvent_held h)
  trans _ _ _ h h' := h'.trans h
  refl _ := rfl

theorem atRest_opened : AtRest .opened :=
  ⟨gated_nil, by simp [Ui.opened], by simp [Ui.opened], by simp [Ui.opened]⟩

/-- The history of the window is gated in every run. -/
theorem gated_run (inputs : List (Input Event Call.Answer)) :
    Gated (Loop.run (handler ps identity apiUrl) inputs .opened).shared.history :=
  keeps.run_invariant (fun _ h => h) (fun _ h => h.gated) (fun _ h => h.gated) inputs
    atRest_opened

end Window

/-- **The hard gate.** -/
theorem hard_gate (ps : PowerShell) :
    (∀ (identity : Identity) (apiUrl : Json) (inputs : List (Input Window.Event Call.Answer)),
      Gated (Loop.run (Window.handler ps identity apiUrl) inputs .opened).shared.history) ∧
    (∀ (mode : Headless.Mode) (countdownSeconds : ℤ) (force whatIf : Bool)
      (inputs : List (Input Unit Call.Answer)),
      Gated (Loop.run (Headless.handler ps mode countdownSeconds force whatIf) inputs
        .started).shared.history) ∧
    ∀ (answers : (c : Call) → c.Answer) (policyUrl inventory failAction : Json)
      (decision : PolicyDecision),
      result answers (invokePolicyEvaluation ps policyUrl inventory failAction) = .ok decision →
      decision.allow = true →
      ∃ url, ps.bindString "PolicyUrl" policyUrl = .ok url ∧ (isNullOrWhiteSpace url = true ∨
        AllowReply ps (answers (.postPolicy url (.obj [("input", inventory)])))) :=
  ⟨fun _ _ => Window.gated_run, fun _ _ _ _ => Headless.gated_run,
    fun _ _ _ _ _ => invokePolicyEvaluation_allow⟩

/-- Answers of a machine whose gate is disabled and that has no config of its own. -/
def ungatedAnswers : (c : Call) → c.Answer
  | .getMachineIdentity => .ok ⟨"S1", "S1", none, none⟩
  | .getInventory => .ok (.obj [])
  | .getZtpSettings => .ok (.obj [("serverUrl", .str "s"), ("policyUrl", .str "")])
  | .postPolicy _ _ | .postResolve _ _ | .get _ => .failed ""
  | .sendZtpJson _ _ | .startSleep _ => ()
  | .resolveTargetDisk _ | .launchGui => .ok 0
  | .saveInventory _ | .formatInventorySummary _ | .getDeployDisks | .invokeDeployment _
  | .beginInvoke _ _ | .reboot => .ok ()

/-- A text without its soft hyphens. -/
def withoutHyphens (s : String) : String := String.ofList (s.toList.filter (· ≠ '\u00ad'))

/-- A session whose comparisons ignore soft hyphens as well, as linguistic ones do. -/
def PowerShell.linguistic : PowerShell :=
  { PowerShell.plain with
    eq := fun s t => ignoringCase Char.toLower (withoutHyphens s) (withoutHyphens t)
    eq_allow := fun s h => by
      rw [Bool.eq_false_iff]
      intro hallow
      -- what is left of the word has five letters, and the other words have four
      have hlength {f : Char → Char} {t u : String} (h : ignoringCase f t u = true) :
          t.toList.length = u.toList.length := by
        simpa using congrArg List.length (beq_iff_eq.mp h)
      have hvisible : (withoutHyphens s).toList.length ≤ s.toList.length := by
        rw [withoutHyphens, String.toList_ofList]
        exact List.length_filter_le _ _
      rw [hlength hallow] at hvisible
      have hfive : (withoutHyphens "allow").toList.length = 5 := by decide
      have hfour : s.toList.length = 4 := h.elim hlength hlength
      omega }

/-- A machine with an engine whose action is spelled with a soft hyphen. -/
def hyphenatedAnswers : (c : Call) → c.Answer
  | .postPolicy _ _ => .answered 200 (PowerShell.plain.convertToJson
      (.obj [("result", .obj [("action", .str "al\u00adlow")])]))
  | c => ungatedAnswers c

/-- A decision allows although the lower case of the action is another word. -/
theorem hyphenated_allowed :
    ¬ ∀ (ps : PowerShell) (answers : (c : Call) → c.Answer) (policyUrl inventory failAction : Json)
      (decision : PolicyDecision),
      result answers (invokePolicyEvaluation ps policyUrl inventory failAction) = .ok decision →
      decision.allow = true →
      ∃ url, ps.bindString "PolicyUrl" policyUrl = .ok url ∧ (isNullOrWhiteSpace url = true ∨
        repliedAction ps (answers (.postPolicy url (.obj [("input", inventory)]))) =
          some "allow") := by
  intro h
  have hallow : (result hyphenatedAnswers (invokePolicyEvaluation .linguistic (.str "https://opa")
      (.obj []) (.str "hold"))).toOption.map PolicyDecision.allow = some true := by decide +kernel
  obtain ⟨decision, hdecision, hallow⟩ := Option.map_eq_some_iff.mp hallow
  obtain ⟨url, hurl, hblank | haction⟩ := h .linguistic hyphenatedAnswers (.str "https://opa")
    (.obj []) (.str "hold") decision (toOption_eq_some.mp hdecision) hallow
  · obtain rfl : "https://opa" = url := Except.ok.inj hurl
    exact absurd hblank (by decide)
  · have hother : repliedAction .linguistic
        (hyphenatedAnswers (.postPolicy "https://opa" (.obj []))) = some "al\u00adlow" := by
      decide +kernel
    exact absurd (hother.symm.trans haction) (by decide)

/-- The window opens, the policy allows, and the operator erases a disk. -/
def eraseInputs : List (Input Window.Event Call.Answer) :=
  .event .contentRendered :: (List.replicate 12 [.pumped, .answer ungatedAnswers]).flatten ++
    [.event (.click .deploy ⟨some 0, "", "secret", true, "erase"⟩)]

example : (Loop.run (Window.handler .plain ⟨"S1", "S1", none, none⟩ (.str "s")) eraseInputs
    .opened).shared.history.length = 2 := by decide

end WinDep.Deploy
