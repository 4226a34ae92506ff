/-
# The plans of a run

Whatever is answered and in whatever order the events come, a plan that is
entered is the plan of an operator's form, or of a config that was normalized
and overlaid. The front-end keeps plans in its countdowns in between.
-/

import WinDep.Data.Ensures
import WinDep.Deploy.Names

namespace WinDep.Deploy

open Json Program Handler

variable {ps : PowerShell} {cfg : ZtpConfig} {A : (c : Call) → c.Answer → Prop}
  {F : Window.Form → Prop} {K : Plan → Prop}

/-- The config was normalized from what the servers and the settings gave. -/
def Normalized (ps : PowerShell) (cfg : ZtpConfig) : Prop :=
  ∃ i : ZeroTouchInput, normalizeConfig ps i.settings i.server i.apiUrl i.identity i.document
    i.found i.source = .ok cfg

/-- The config was overlaid as well. -/
def Configured (ps : PowerShell) (cfg : ZtpConfig) : Prop :=
  ∃ i : ZeroTouchInput, i.config ps = .ok cfg

/-- The plan is made of what it can be made of. -/
def Planned (ps : PowerShell) (plan : Plan) : Prop := ∃ i : PlanInput, i.plan ps = .ok plan

/-- Every plan that was entered has the property. -/
def AllEntered (K : Plan → Prop) (history : List Action) : Prop :=
  ∀ plan, .entered plan ∈ history → K plan

/-- The plans that can be made have the property: those of the forms that are filled in, and those
of a config with an answer for its disk. -/
structure Admits (ps : PowerShell) (F : Window.Form → Prop) (A : (c : Call) → c.Answer → Prop)
    (K : Plan → Prop) : Prop where
  interactive : ∀ identity form plan, F form →
    Window.newInteractivePlan identity form = .ok plan → K plan
  zeroTouch : ∀ cfg disk, Configured ps cfg → A (.resolveTargetDisk cfg.diskRule) (.ok disk) →
    K (zeroTouchPlan disk cfg)

theorem allEntered_nil : AllEntered K [] := fun _ h => absurd h List.not_mem_nil

theorem AllEntered.append {history : List Action} {a : Action} (h : AllEntered K history)
    (ha : ∀ plan, a = .entered plan → K plan) : AllEntered K (history ++ [a]) := by
  intro plan hplan
  rcases List.mem_append.mp hplan with hold | hnew
  · exact h plan hold
  · exact ha plan (List.mem_singleton.mp hnew).symm

theorem AllEntered.evaluated {history : List Action} {decision : PolicyDecision}
    (h : AllEntered K history) : AllEntered K (history ++ [.evaluated decision]) :=
  h.append fun _ ha => by cases ha

theorem AllEntered.entered {history : List Action} {plan : Plan} (h : AllEntered K history)
    (hplan : K plan) : AllEntered K (history ++ [.entered plan]) := by
  apply h.append
  rintro _ ⟨⟩
  exact hplan

theorem Normalized.overlay {decision : PolicyDecision} {cfg' : ZtpConfig} (h : Normalized ps cfg)
    (hoverlay : overlay ps decision cfg = .ok cfg') : Configured ps cfg' := by
  obtain ⟨i, hi⟩ := h
  refine ⟨{ i with decision := decision }, ?_⟩
  rw [ZeroTouchInput.config, bind_eq_ok]
  exact ⟨cfg, hi, hoverlay⟩

/-- Without a config of a policy nothing is overlaid. -/
theorem Normalized.configured (h : Normalized ps cfg) : Configured ps cfg := by
  have hnull : Deploy.overlay ps ⟨"", true, [], [], .null⟩ cfg = .ok cfg := rfl
  exact h.overlay hnull

/-- Every plan that can be made is made of what it can be made of. -/
theorem admits_planned :
    Admits ps (fun _ => True) (fun _ _ => True) (Planned ps) where
  interactive identity form _ _ hplan := ⟨.interactive identity form, hplan⟩
  zeroTouch cfg disk h _ := by
    obtain ⟨i, hi⟩ := h
    refine ⟨.zeroTouch { i with disk := disk }, ?_⟩
    rw [PlanInput.plan, bind_eq_ok]
    exact ⟨cfg, hi, rfl⟩

/-- A config that is fetched is normalized, whether the api resolved it or not. -/
theorem returns_getZtpConfig {inventory : Json} :
    Returns A (Normalized ps) (getZtpConfig ps inventory) := by
  have hnormalize (settings server : Json) (apiUrl : String) (identity : Identity) (document : Json)
      (found : Bool) (source : String) : ∀ cfg,
      normalizeConfig ps settings server apiUrl identity document found source = .ok cfg →
      Normalized ps cfg := fun cfg h =>
    ⟨⟨settings, server, apiUrl, identity, document, found, source, ⟨"", true, [], [], .null⟩, 0⟩, h⟩
  unfold getZtpConfig
  refine returns_bind (returns_any _) fun settings _ => ?_
  refine returns_bind (returns_any _) fun serverUrl _ => ?_
  refine returns_bind (returns_any _) fun server _ => ?_
  refine returns_bind (returns_any _) fun api _ => ?_
  refine returns_bind (returns_any _) fun identity _ => ?_
  refine returns_bind (returns_any _) fun apiUrl _ => ?_
  refine returns_bind (returns_any _) fun resolved _ => ?_
  split_ifs
  · exact returns_except (hnormalize _ _ _ _ _ _ _)
  · refine returns_bind (returns_any _) fun document _ => ?_
    exact returns_except (hnormalize _ _ _ _ _ _ _)

/-- The disk is one that is granted as an answer to its rule. -/
theorem returns_resolveTargetDisk {rule : Json} :
    Returns A (fun disk => A (.resolveTargetDisk rule) (.ok disk)) (resolveTargetDisk rule) := by
  unfold resolveTargetDisk
  split_ifs
  · exact fun _ h => by cases h
  · rintro r hr disk rfl
    exact hr

/-! ## The headless script -/

namespace Headless

/-- Every plan of the script has the property. -/
def Sourced (K : Plan → Prop) (s : Session) : Prop := AllEntered K s.history

variable {mode : Mode} {countdownSeconds : ℤ} {force whatIf : Bool}

theorem preserves_record {a : Action} (ha : ∀ plan, a = .entered plan → K plan) :
    Preserves A (Sourced K) (record a) :=
  ensures_bind (preserves_change fun _ hs => AllEntered.append hs ha) fun _ _ =>
    ensures_pure trivial

theorem preserves_keepConfig : Preserves A (Sourced K) (keepConfig cfg) :=
  ensures_bind (preserves_change fun _ hs => hs) fun _ _ => ensures_pure trivial

/-- The machine goes on with a config that was overlaid. -/
theorem ensures_route : Ensures A (Sourced K)
    (fun outcome => ∀ cfg, outcome = .zeroTouch cfg → Configured ps cfg) (route ps mode) := by
  unfold route
  refine ensures_calls_bind fun identity => ?_
  refine ensures_calls_bind fun inv => ?_
  refine ensures_calls_bind fun _ => ?_
  refine ensures_calls_bind fun _ => ?_
  refine ensures_calls_bind fun settings => ?_
  refine ensures_except_bind fun failAction _ => ?_
  refine ensures_except_bind fun policyUrl _ => ?_
  refine ensures_calls_bind fun decision => ?_
  refine ensures_bind (preserves_record fun _ h => by cases h) fun _ _ => ?_
  cases decision.allow with
  | false =>
    refine ensures_except_bind fun apiBase _ => ?_
    refine ensures_calls_bind fun _ => ?_
    exact ensures_pure fun cfg h => by cases h
  | true =>
    refine ensures_bind (ensures_calls returns_getZtpConfig) fun cfg hcfg => ?_
    refine ensures_bind preserves_keepConfig fun _ _ => ?_
    refine ensures_except_bind fun cfg' hoverlay => ?_
    refine ensures_bind preserves_keepConfig fun _ _ => ?_
    apply ensures_pure
    -- no mode changes the config
    intro c hroute
    obtain rfl : cfg' = c := by
      unfold followMode at hroute
      split at hroute
      · split_ifs at hroute
        exact Outcome.zeroTouch.inj hroute
      · exact Outcome.zeroTouch.inj hroute
      · cases hroute
    exact hcfg.overlay hoverlay

theorem preserves_erase {plan : Plan} (hplan : K plan) :
    Preserves A (Sourced K) (erase ps plan cfg) := by
  unfold erase
  refine ensures_calls_bind fun _ => ?_
  refine ensures_bind (preserves_record ?_) fun _ _ => ?_
  · rintro _ ⟨⟩
    exact hplan
  refine ensures_calls_bind fun _ => ?_
  refine ensures_calls_bind fun _ => ?_
  refine ensures_calls_bind fun _ => ?_
  refine ensures_calls_bind fun _ => ?_
  exact ensures_pure trivial

theorem preserves_deploy (hK : Admits ps F A K) (hcfg : Configured ps cfg) :
    Preserves A (Sourced K) (deploy ps countdownSeconds force whatIf cfg) := by
  unfold deploy
  refine ensures_bind (ensures_calls returns_resolveTargetDisk) fun disk hdisk => ?_
  split_ifs
  · exact ensures_throw
  · exact ensures_pure trivial
  · exact ensures_calls_bind fun _ => preserves_erase (hK.zeroTouch cfg disk hcfg hdisk)
  · exact preserves_erase (hK.zeroTouch cfg disk hcfg hdisk)

theorem preserves_body (hK : Admits ps F A K) : Preserves A (Sourced K)
    (body ps mode countdownSeconds force whatIf) := by
  unfold body
  refine ensures_bind ensures_route ?_
  rintro (decision | cfg | _) h
  · exact ensures_pure trivial
  · exact preserves_deploy hK (h cfg rfl)
  · exact ensures_calls (returns_any _)

theorem wp_handler_sourced (hK : Admits ps F A K) {s : Session} (hs : Sourced K s) :
    wp (keeping (Sourced K)) (granted A (handler ps mode countdownSeconds force whatIf () s))
      (fun _ => Sourced K) s := by
  unfold handler invokeDeploy
  rw [granted_bind, granted_bind, wp_bind, wp_bind]
  apply (preserves_body hK s hs).mono
  rintro (e | code) s' ⟨hs', -⟩
  · rw [granted_bind, wp_bind]
    have hreport : Preserves A (Sourced K) (reportFailure ps (ps.message e)) := by
      unfold reportFailure
      refine ensures_bind (preserves_change fun _ hs => hs) fun s _ => ?_
      cases s.cfg with
      | none => exact ensures_throw
      | some cfg => exact ensures_calls (returns_any _)
    exact (hreport s' hs').mono fun _ _ h => h.1
  · exact hs'

end Headless

/-! ## The front-end -/

namespace Window

variable {identity : Identity} {apiUrl : Json} {ui : Ui}

/-- Every plan has the property, and so has every one that a countdown will start. -/
structure Sourced (K : Plan → Prop) (ui : Ui) : Prop where
  entered : AllEntered K ui.history
  counting : ∀ c ∈ ui.countdowns, K c.plan

theorem preserves_update {f : Ui → Ui} (hf : ∀ ui, Sourced K ui → Sourced K (f ui)) :
    Preserves A (Sourced K) (update f) :=
  ensures_bind (preserves_change hf) fun _ _ => ensures_pure trivial

theorem preserves_showPanel {panel : Panel} :
    Preserves A (Sourced K) (showPanel panel) :=
  preserves_update fun _ h => ⟨h.entered, h.counting⟩

theorem preserves_setFinish {visible : Bool} :
    Preserves A (Sourced K) (setFinish visible) :=
  preserves_update fun _ h => ⟨h.entered, h.counting⟩

theorem preserves_close : Preserves A (Sourced K) close :=
  preserves_update fun _ h => ⟨h.entered, h.counting⟩

theorem preserves_startDeploymentWorker {plan : Plan} {serverUrl : Json} (hplan : K plan) :
    Preserves A (Sourced K) (startDeploymentWorker ps plan serverUrl) := by
  unfold startDeploymentWorker
  refine ensures_except_bind fun serverUrl _ => ?_
  refine ensures_bind (preserves_update fun _ h => ?_) fun _ _ => ?_
  · exact ⟨h.entered.entered hplan, h.counting⟩
  refine ensures_bind preserves_showPanel fun _ _ => ?_
  refine ensures_bind preserves_setFinish fun _ _ => ?_
  refine ensures_calls_bind fun _ => ?_
  exact preserves_update fun _ h => ⟨h.entered, h.counting⟩

/-- A countdown starts with the plan of the config that was passed on, or is fetched. -/
theorem preserves_startZeroTouch (hK : Admits ps F A K) {config : Option ZtpConfig}
    (hconfig : ∀ cfg, config = some cfg → Configured ps cfg) :
    Preserves A (Sourced K) (startZeroTouch ps config) := by
  have hplan {cfg : ZtpConfig} (hcfg : Configured ps cfg) :
      Preserves A (Sourced K) (do
        let disk ← resolveTargetDisk cfg.diskRule
        let plan : Plan := ⟨disk, cfg.computerName, cfg.imageUrl, some "unattend.template.xml",
          cfg.unattend⟩
        update fun ui => { ui with
          countdowns := ui.countdowns ++ [⟨plan, cfg.apiUrl⟩] } : Script Ui Unit) := by
    refine ensures_bind (ensures_calls returns_resolveTargetDisk) fun disk hdisk => ?_
    refine preserves_update fun ui h => ⟨h.entered, fun c hc => ?_⟩
    rcases List.mem_append.mp hc with hold | hnew
    · exact h.counting c hold
    · obtain rfl := List.mem_singleton.mp hnew
      exact hK.zeroTouch cfg disk hcfg hdisk
  unfold startZeroTouch
  refine ensures_bind preserves_showPanel fun _ _ => ?_
  cases config with
  | some cfg => exact hplan (hconfig cfg rfl)
  | none =>
    refine ensures_bind (ensures_calls returns_getZtpConfig).attempt ?_
    rintro (e | cfg) h
    · exact ensures_pure trivial
    · exact hplan (h cfg rfl).configured

/-- The route goes on with a config that was overlaid. -/
theorem ensures_autoRoute : Ensures A (Sourced K)
    (fun r => ∀ cfg, r.2 = .zeroTouch cfg → Configured ps cfg)
    (autoRoute ps identity apiUrl) := by
  unfold autoRoute
  refine ensures_bind preserves_showPanel fun _ _ => ?_
  refine ensures_bind preserves_setFinish fun _ _ => ?_
  refine ensures_bind preserves_pump fun _ _ => ?_
  refine ensures_calls_bind fun inv => ?_
  refine ensures_calls_bind fun _ => ?_
  refine ensures_calls_bind fun _ => ?_
  refine ensures_calls_bind fun settings => ?_
  refine ensures_bind preserves_pump fun _ _ => ?_
  refine ensures_except_bind fun policyUrl _ => ?_
  refine ensures_except_bind fun failAction _ => ?_
  refine ensures_calls_bind fun decision => ?_
  refine ensures_bind (preserves_update fun _ h => ⟨h.entered.evaluated, h.counting⟩) fun _ _ => ?_
  refine ensures_calls_bind fun _ => ?_
  cases decision.allow with
  | false => exact ensures_pure fun cfg h => by cases h
  | true =>
    refine ensures_bind preserves_pump fun _ _ => ?_
    refine ensures_bind (ensures_calls returns_getZtpConfig).attempt ?_
    rintro (e | cfg) hcfg
    · exact ensures_pure fun cfg h => by cases h
    · refine ensures_except_bind fun cfg' hoverlay => ensures_pure fun c hroute => ?_
      obtain rfl : cfg' = c := by
        dsimp only at hroute
        split_ifs at hroute
        exact Outcome.zeroTouch.inj hroute
      exact (hcfg cfg rfl).overlay hoverlay

theorem preserves_startAutoRoute (hK : Admits ps F A K) :
    Preserves A (Sourced K) (startAutoRoute ps identity apiUrl) := by
  unfold startAutoRoute
  refine ensures_bind ensures_autoRoute ?_
  rintro ⟨inv, decision | cfg | _⟩ h
  · exact ensures_calls_bind fun _ => preserves_showPanel
  · refine preserves_startZeroTouch hK fun c hc => ?_
    exact h c (congrArg Outcome.zeroTouch (Option.some.inj hc))
  · exact ensures_calls_bind fun _ => preserves_showPanel

/-! ### Events -/

/-- A form that is filled in as it may be, where it is what is clicked with. -/
def Event.Fills (F : Form → Prop) : Event → Prop
  | .click _ form => F form
  | _ => True

theorem preserves_onClick (hK : Admits ps F A K) {b : Button} {form : Form} (hform : F form) :
    Preserves A (Sourced K) (onClick ps identity apiUrl form ui b) := by
  cases b with
  | interactive => exact ensures_calls_bind fun _ => preserves_showPanel
  | zeroTouch => exact preserves_startZeroTouch hK fun _ h => absurd h (Option.some_ne_none _).symm
  | back => exact preserves_showPanel
  | deploy =>
    simp only [onClick]
    split_ifs
    · have hstart : Preserves A (Sourced K) (do
          let plan ← newInteractivePlan identity form
          startDeploymentWorker ps plan apiUrl : Script Ui Unit) :=
        ensures_except_bind fun plan hplan =>
          preserves_startDeploymentWorker (hK.interactive identity form plan hform hplan)
      exact ensures_bind hstart.attempt fun _ _ => ensures_pure trivial
    · exact ensures_pure trivial
  | finish =>
    simp only [onClick]
    split_ifs
    · exact ensures_bind (preserves_update fun _ h => ⟨h.entered, h.counting⟩) fun _ _ =>
        ensures_calls (returns_any _)
    · exact preserves_close
  | policyExit => exact preserves_close
  | recheck => exact preserves_startAutoRoute hK
  | quit => exact preserves_close

/-- A countdown that runs starts what it was made with. -/
theorem preserves_onCountdownTick {i : ℕ} {scope : TickScope} (h : Sourced K ui) :
    Preserves A (Sourced K) (onCountdownTick ps i scope ui) := by
  unfold onCountdownTick
  split
  · exact ensures_pure trivial
  · exact ensures_throw
  · next countdown secs hget hsecs =>
    split_ifs
    · exact ensures_pure trivial
    · exact ensures_throw
    · refine ensures_bind (preserves_update fun _ h => ?_) fun _ _ =>
        preserves_startDeploymentWorker (h.counting _ (List.mem_of_getElem? hget))
      exact ⟨h.entered, fun c hc => h.counting c (List.mem_of_mem_eraseIdx hc)⟩

theorem preserves_onPumpTick {locals : Bool} {progress : Progress} :
    Preserves A (Sourced K) (onPumpTick locals progress ui) := by
  unfold onPumpTick
  split_ifs
  · exact ensures_pure trivial
  · exact ensures_throw
  · cases progress with
    | working => exact ensures_pure trivial
    | done => exact preserves_update fun _ h => ⟨h.entered, h.counting⟩
    | failed => exact preserves_update fun _ h => ⟨h.entered, h.counting⟩

theorem preserves_onEvent (hK : Admits ps F A K) {e : Event} (he : e.Fills F) (h : Sourced K ui) :
    Preserves A (Sourced K) (onEvent ps identity apiUrl e ui) := by
  cases e with
  | contentRendered =>
    simp only [onEvent]
    split_ifs
    · exact ensures_pure trivial
    · exact ensures_bind (preserves_update fun _ h => ⟨h.entered, h.counting⟩) fun _ _ =>
        preserves_startAutoRoute hK
  | click b form =>
    simp only [onEvent]
    split_ifs
    · exact preserves_onClick hK he
    · exact ensures_pure trivial
  | countdownTick i scope => exact preserves_onCountdownTick h
  | pumpTick locals progress => exact preserves_onPumpTick
  | rebootTick =>
    simp only [onEvent]
    split_ifs
    · exact ensures_calls (returns_any _)
    · exact ensures_pure trivial
  | closing => exact preserves_close

theorem wp_handler_sourced (hK : Admits ps F A K) {e : Event} (he : e.Fills F)
    (h : Sourced K ui) : wp (keeping (Sourced K)) (granted A (handler ps identity apiUrl e ui))
      (fun _ => Sourced K) ui :=
  (preserves_onEvent hK he h).drop h

theorem sourced_opened : Sourced K .opened :=
  ⟨allEntered_nil, fun _ h => absurd h List.not_mem_nil⟩

end Window

/-- **Every plan that either program enters is one that can be made**, in any run whose forms and
answers are of the given kind. -/
theorem Admits.allEntered_run (hK : Admits ps F A K) :
    (∀ (identity : Identity) (apiUrl : Json) (inputs : List (Input Window.Event Call.Answer)),
      (∀ i ∈ inputs, i.Granted (Window.Event.Fills F) A) →
      AllEntered K (Loop.run (Window.handler ps identity apiUrl) inputs .opened).shared.history) ∧
    ∀ (mode : Headless.Mode) (countdownSeconds : ℤ) (force whatIf : Bool)
      (inputs : List (Input Unit Call.Answer)), (∀ i ∈ inputs, i.Granted (fun _ => True) A) →
      AllEntered K (Loop.run (Headless.handler ps mode countdownSeconds force whatIf) inputs
        .started).shared.history :=
  ⟨fun _ _ inputs hinputs =>
    (Loop.run_keeping (fun _ _ => Window.wp_handler_sourced hK) inputs hinputs
      Window.sourced_opened).entered,
    fun _ _ _ _ inputs hinputs =>
      Loop.run_keeping (I := Headless.Sourced K) (fun _ _ _ => Headless.wp_handler_sourced hK)
        inputs hinputs allEntered_nil⟩

/-- **Every plan that either program enters, in any run, is made of what it can be made of.** -/
theorem allPlanned_run (ps : PowerShell) :
    (∀ (identity : Identity) (apiUrl : Json) (inputs : List (Input Window.Event Call.Answer)),
      AllEntered (Planned ps) (Loop.run (Window.handler ps identity apiUrl) inputs
        .opened).shared.history) ∧
    ∀ (mode : Headless.Mode) (countdownSeconds : ℤ) (force whatIf : Bool)
      (inputs : List (Input Unit Call.Answer)),
      AllEntered (Planned ps) (Loop.run (Headless.handler ps mode countdownSeconds force whatIf)
        inputs .started).shared.history := by
  have hrun := (@admits_planned ps).allEntered_run
  refine ⟨fun identity apiUrl inputs => hrun.1 identity apiUrl inputs ?_,
    fun mode countdownSeconds force whatIf inputs =>
      hrun.2 mode countdownSeconds force whatIf inputs ?_⟩
  · rintro (e | r | _) -
    · cases e <;> trivial
    · exact fun _ => trivial
    · trivial
  · rintro (e | r | _) -
    · trivial
    · exact fun _ => trivial
    · trivial

end WinDep.Deploy
