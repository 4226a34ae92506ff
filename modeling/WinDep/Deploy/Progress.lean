/-
# The progress of a deployment

The engine reports progress through blocks that its callers hand in. The blocks
that `Invoke-Deployment` hands to the download and to DISM leave `$OnProgress`
unbound, and so take it from the frames that call them. The innermost of these
is the frame of `Report-Progress`, where the name stands for the block itself.
-/

import WinDep.Data.Scope
import WinDep.Deploy.Calls
import Mathlib.Data.Rat.Floor

namespace WinDep.Deploy.Progress

open Scope

/-! ## Numbers -/

/-- `[int]` of a number: to the nearest integer, and half-way to the even one. -/
def toInt (q : ℚ) : ℤ :=
  if q - ⌊q⌋ < 1 / 2 then ⌊q⌋
  else if 1 / 2 < q - ⌊q⌋ then ⌊q⌋ + 1
  else if ⌊q⌋ % 2 = 0 then ⌊q⌋ else ⌊q⌋ + 1

/-- A raw percentage of a stage. -/
abbrev Percent := {n : ℤ // 0 ≤ n ∧ n ≤ 100}

/-- The stages that show 0 to 100 in a part of the bar. -/
inductive Stage
  | download
  | apply
  deriving DecidableEq

/-- The part of the bar: `[int](5 + ($p * 0.40))` and `[int](45 + ($p * 0.45))`. -/
def Stage.scale : Stage → ℤ → ℤ
  | download, p => toInt (5 + p * (40 / 100))
  | apply, p => toInt (45 + p * (45 / 100))

/-! ## Blocks and frames -/

/-- A block that reports progress. -/
inductive Block
  /-- the caller's own, which comes from outside the module -/
  | supplied
  /-- `{ param($p,$a) Report-Progress (scale $p) $a $OnProgress }` -/
  | reporting (scale : ℤ → ℤ)

/-- The names that blocks look up, and those bound on the way. -/
inductive Name
  | p
  | a
  | percent
  | activity
  | onProgress
  | stage
  deriving DecidableEq

inductive Value
  | null
  | number (n : ℤ)
  | text (s : String)
  | block (b : Block)

abbrev Frames := Scope.Frames Name Value

/-- `param([int]$Percent, [string]$Activity, [scriptblock]$OnProgress)` -/
def reportFrame (percent : ℤ) (activity : String) (onProgress : Value) : Bindings Name Value
  | .percent => some (.number percent)
  | .activity => some (.text activity)
  | .onProgress => some onProgress
  | _ => none

/-- `param($p,$a)` -/
def blockFrame (p : ℤ) (a : String) : Bindings Name Value
  | .p => some (.number p)
  | .a => some (.text a)
  | _ => none

/-- A function with a parameter `$OnProgress`. -/
def progressFrame (onProgress : Value) : Bindings Name Value
  | .onProgress => some onProgress
  | _ => none

/-! ## Runs -/

/-- What ends a run early. -/
inductive Fault
  /-- the host allows no deeper call -/
  | callDepth
  | unbound (x : Name)
  | raised (e : Raised)

/-- What happens to the reports. -/
inductive Event
  /-- the caller's block is called -/
  | seen (percent : ℤ) (activity : String)
  /-- a stage calls `Report-Progress` -/
  | reporting (s : Stage) (raw : ℤ)
  /-- that call returns -/
  | reported (s : Stage) (raw : ℤ)

abbrev Run := ExceptT Fault (StateM (List Event))

/-- A read of the download that comes to a percentage. -/
structure Reading where
  percent : Percent
  activity : String

/-- What a deployment meets outside the module. A fault is what fails at that point, the log
callback included. -/
structure Host where
  /-- How the caller's block ends, after what has happened. -/
  supplied : List Event → Option Fault
  /-- How `Initialize-DeployDisk` fails. -/
  disk : Option Fault
  /-- The `install.wim` of a USB stick. -/
  localImage : Option String
  /-- What fails before the first read. -/
  request : Option Fault
  reads : List Reading
  /-- What fails after the last read. -/
  stream : Option Fault
  /-- The percentages that DISM shows. -/
  shown : List Percent
  /-- How DISM fails. -/
  exit : Option Fault
  boot : Option Fault
  unattend : Option Fault

/-- Go on, unless there is a fault. -/
def failing : Option Fault → Run Unit
  | none => pure ()
  | some e => throw e

/-- What happened is noted. -/
def note (e : Event) : Run Unit := modify (· ++ [e])

namespace Host

variable (w : Host) (ps : PowerShell)

/-- The caller's block. -/
def callSupplied (percent : ℤ) (activity : String) : Run Unit := do
  note (.seen percent activity)
  failing (w.supplied (← get))

/-- The value of a variable, under strict mode. -/
def variableOf (frames : Frames) (x : Name) : Run Value :=
  match resolve x frames with
  | some v => pure v
  | none => throw (.unbound x)

mutual

/-- `Report-Progress` -/
def reportProgress : ℕ → Frames → ℤ → String → Value → Run Unit
  | 0, _, _, _, _ => throw .callDepth
  | depth + 1, frames, percent, activity, onProgress =>
    match onProgress with
    | .block b =>
      invoke depth (reportFrame percent activity onProgress :: frames) b percent activity
    | _ => pure ()

/-- `& $block $percent $activity` -/
def invoke : ℕ → Frames → Block → ℤ → String → Run Unit
  | 0, _, _, _, _ => throw .callDepth
  | _ + 1, _, .supplied, percent, activity => w.callSupplied percent activity
  | depth + 1, frames, .reporting scale, p, a => do
    let onProgress ← variableOf (blockFrame p a :: frames) .onProgress
    reportProgress depth (blockFrame p a :: frames) (scale p) a onProgress

end

/-- A `Report-Progress` of a stage. -/
def report (depth : ℕ) (frames : Frames) (s : Stage) (raw : ℤ) (activity : String)
    (onProgress : Value) : Run Unit := do
  note (.reporting s raw)
  w.reportProgress depth frames raw activity onProgress
  note (.reported s raw)

/-- `if ($pct -ne $lastPct) { Report-Progress ..; $lastPct = $pct }` in a loop. -/
def reportChanges (depth : ℕ) (frames : Frames) (s : Stage) (onProgress : Value) :
    ℤ → List (ℤ × String) → Run Unit
  | _, [] => pure ()
  | lastPct, (pct, activity) :: rest =>
    if pct ≠ lastPct then do
      w.report depth frames s pct activity onProgress
      reportChanges depth frames s onProgress pct rest
    else reportChanges depth frames s onProgress lastPct rest

/-- `Invoke-HttpsDownload` -/
def invokeHttpsDownload (depth : ℕ) (frames : Frames) (onProgress : Value) : Run Unit :=
  match depth with
  | 0 => throw .callDepth
  | depth + 1 => do
    failing w.request
    w.reportChanges depth (progressFrame onProgress :: frames) .download onProgress (-1)
      (w.reads.map fun r => (r.percent, r.activity))
    failing w.stream

/-- What `Get-InstallImage` returns. -/
structure Image where
  path : String
  temporary : Bool

/-- `Get-InstallImage` -/
def getInstallImage (depth : ℕ) (frames : Frames) (imageUrl : String) (onProgress : Value) :
    Run Image :=
  match depth with
  | 0 => throw .callDepth
  | depth + 1 =>
    match w.localImage with
    | some path => return { path := path, temporary := false }
    | none =>
      if imageUrl = "" then
        throw (.raised (.thrown "No local install.wim found and no ImageUrl provided in config."))
      else do
        w.invokeHttpsDownload depth (progressFrame onProgress :: frames) onProgress
        return { path := "W:\\install.download.wim", temporary := true }

/-- `Invoke-ImageApply` -/
def invokeImageApply (depth : ℕ) (frames : Frames) (onProgress : Value) : Run Unit :=
  match depth with
  | 0 => throw .callDepth
  | depth + 1 => do
    w.reportChanges depth (progressFrame onProgress :: frames) .apply onProgress (-1)
      (w.shown.map fun p => (p.1, s!"Applying Windows image  {p.1}%"))
    failing w.exit
    w.report depth (progressFrame onProgress :: frames) .apply 100 "Image applied" onProgress

/-- `$stage` -/
def stage : Block := .reporting id

/-- The frame of `Invoke-Deployment`. -/
def deploymentFrame (onProgress : Value) : Bindings Name Value
  | .onProgress => some onProgress
  | .stage => some (.block stage)
  | _ => none

/-- `[string]$ImageUrl` -/
def imageUrl (plan : Plan) : Run String :=
  match ps.bindString "ImageUrl" plan.imageUrl with
  | .ok s => pure s
  | .error e => throw (.raised e)

/-- `Invoke-Deployment` -/
def invokeDeployment (depth : ℕ) (plan : Plan) (onProgress : Value) : Run Unit :=
  match depth with
  | 0 => throw .callDepth
  | depth + 1 => do
    let frames := [deploymentFrame onProgress]
    w.invoke depth frames stage 2 s!"Preparing disk {plan.diskIndex}"
    failing w.disk
    let url ← imageUrl ps plan
    let img ← w.getInstallImage depth frames url (.block (.reporting Stage.download.scale))
    w.invokeImageApply depth frames (.block (.reporting Stage.apply.scale))
    if img.temporary then w.invoke depth frames stage 91 "Cleaning up temporary image"
    w.invoke depth frames stage 93 "Writing boot files"
    failing w.boot
    if plan.unattendTemplate.any (· ≠ "") then
      w.invoke depth frames stage 97 "Applying unattend (OOBE automation)"
      failing w.unattend
    w.invoke depth frames stage 100 "Deployment complete"

end Host

/-! ## What a run does -/

/-- How a run ends, and what has happened by then. -/
def exec {α : Type} (m : Run α) (log : List Event) : Except Fault α × List Event := m.run.run log

section Exec

variable {α β : Type} {m : Run α} {f : α → Run β} {log log' : List Event} {a : α} {e : Fault}

@[simp] theorem exec_pure : exec (pure a : Run α) log = (.ok a, log) := rfl

@[simp] theorem exec_throw : exec (throw e : Run α) log = (.error e, log) := rfl

@[simp] theorem exec_note (x : Event) : exec (note x) log = (.ok (), log ++ [x]) := rfl

@[simp] theorem exec_failing_none : exec (failing none) log = (.ok (), log) := rfl

@[simp] theorem exec_failing_some : exec (failing (some e)) log = (.error e, log) := rfl

theorem exec_bind_ok (h : exec m log = (.ok a, log')) : exec (m >>= f) log = exec (f a) log' := by
  have h' : m.run.run log = (.ok a, log') := h
  rw [exec, ExceptT.run_bind, StateT.run_bind, h']
  rfl

theorem exec_bind_error (h : exec m log = (.error e, log')) :
    exec (m >>= f) log = (.error e, log') := by
  have h' : m.run.run log = (.error e, log') := h
  rw [exec, ExceptT.run_bind, StateT.run_bind, h']
  rfl

/-- The run ends with an error, whatever has happened before. -/
def Fails (m : Run α) : Prop := ∀ log, ∃ e log', exec m log = (.error e, log')

theorem fails_throw : Fails (throw e : Run α) := fun log => ⟨e, log, rfl⟩

theorem Fails.bind (h : Fails m) : Fails (m >>= f) := by
  intro log
  obtain ⟨e, log', h⟩ := h log
  exact ⟨e, log', exec_bind_error h⟩

theorem Fails.of_bind (h : ∀ a, Fails (f a)) : Fails (m >>= f) := by
  intro log
  cases hm : exec m log with
  | mk r log' =>
    cases r with
    | ok a =>
      obtain ⟨e, log'', h⟩ := h a log'
      exact ⟨e, log'', (exec_bind_ok hm).trans h⟩
    | error e => exact ⟨e, log', exec_bind_error hm⟩

end Exec

namespace Host

variable {w : Host} {ps : PowerShell} {depth : ℕ} {frames : Frames} {plan : Plan}
  {log : List Event} {scale : ℤ → ℤ}

/-! ## A block that finds itself -/

/-- A block that `Report-Progress` calls finds itself under the name `$OnProgress`. -/
theorem variableOf_onProgress (p percent : ℤ) (a activity : String) (v : Value) :
    variableOf (blockFrame p a :: reportFrame percent activity v :: frames) .onProgress
      = pure v := by
  have hresolve : resolve .onProgress (blockFrame p a :: reportFrame percent activity v :: frames)
      = some v := by
    rw [resolve_of_unbound rfl]
    exact resolve_of_binds rfl
  rw [variableOf, hresolve]

/-- Two calls deeper, the report is a report to the same block. -/
theorem reportProgress_reporting (percent : ℤ) (activity : String) :
    w.reportProgress (depth + 2) frames percent activity (.block (.reporting scale))
      = w.reportProgress depth
          (blockFrame percent activity
            :: reportFrame percent activity (.block (.reporting scale)) :: frames)
          (scale percent) activity (.block (.reporting scale)) := by
  rw [reportProgress, invoke, variableOf_onProgress, pure_bind]

/-- **No report to such a block returns**, whatever the depth the host allows. -/
theorem reportProgress_overflows (depth : ℕ) (frames : Frames) (percent : ℤ) (activity : String) :
    w.reportProgress depth frames percent activity (.block (.reporting scale))
      = throw .callDepth := by
  let run (n : ℕ) (d : Frames × ℤ × String) : Run Unit :=
    w.reportProgress n d.1 d.2.1 d.2.2 (.block (.reporting scale))
  refine fails_of_descends run Set.univ (· = throw .callDepth) ?_ depth (frames, percent, activity)
    trivial
  rintro (_ | _ | n) ⟨frames, percent, activity⟩ -
  · exact .inl rfl
  · exact .inl rfl
  · exact .inr ⟨n, by omega, (_, _, _), trivial, reportProgress_reporting percent activity⟩

/-- `$stage` finds the caller's block. -/
theorem invoke_stage (p : ℤ) (a : String) :
    w.invoke (depth + 3) [deploymentFrame (.block .supplied)] stage p a = w.callSupplied p a := by
  have hresolve : resolve .onProgress [blockFrame p a, deploymentFrame (.block .supplied)]
      = some (.block .supplied) := by
    rw [resolve_of_unbound rfl]
    exact resolve_of_binds rfl
  rw [stage, invoke, variableOf, hresolve, pure_bind, reportProgress, invoke, id]

/-! ## The stages -/

theorem exec_report (s : Stage) (raw : ℤ) (activity : String) :
    exec (w.report depth frames s raw activity (.block (.reporting scale))) log
      = (.error .callDepth, log ++ [.reporting s raw]) := by
  rw [report, exec_bind_ok (exec_note _), reportProgress_overflows, exec_bind_error exec_throw]

/-- The first percentage of a stage is reported. -/
theorem exec_reportChanges {s : Stage} {first : ℤ × String} {rest : List (ℤ × String)}
    (hfirst : 0 ≤ first.1) :
    exec (w.reportChanges depth frames s (.block (.reporting scale)) (-1) (first :: rest)) log
      = (.error .callDepth, log ++ [.reporting s first.1]) := by
  have hne : first.1 ≠ -1 := by omega
  rw [reportChanges, if_pos hne, exec_bind_error (exec_report s first.1 first.2)]

/-- DISM ends with a report, or with an error. -/
theorem invokeImageApply_fails (depth : ℕ) (frames : Frames) :
    Fails (w.invokeImageApply depth frames (.block (.reporting scale))) := by
  cases depth with
  | zero => exact fails_throw
  | succ depth =>
    refine Fails.of_bind fun _ => Fails.of_bind fun _ => fun log => ?_
    exact ⟨_, _, exec_report .apply 100 "Image applied"⟩

/-- **No deployment completes**, whoever calls it and whatever the host does. -/
theorem invokeDeployment_fails (depth : ℕ) (onProgress : Value) :
    Fails (w.invokeDeployment ps depth plan onProgress) := by
  cases depth with
  | zero => exact fails_throw
  | succ depth =>
    -- whatever comes before it, the image is applied at some point
    refine Fails.of_bind fun _ => Fails.of_bind fun _ => Fails.of_bind fun _ =>
      Fails.of_bind fun _ => ?_
    exact (invokeImageApply_fails depth _).bind

/-! ## What the caller sees -/

variable (w ps plan)

/-- The first thing the caller sees. -/
def preparing : Event := .seen 2 s!"Preparing disk {plan.diskIndex}"

/-- No percentage of a download is reported. -/
def DownloadQuiet (url : String) : Prop :=
  w.localImage ≠ none ∨ url = "" ∨ w.request ≠ none ∨ w.reads = []

/-- No image is there to apply, wherever the download stops. -/
def DownloadFails (url : String) : Prop :=
  w.localImage = none ∧ (url = "" ∨ w.request ≠ none ∨ w.stream ≠ none)

/-- DISM fails before it shows a percentage. -/
def ApplyQuiet : Prop := w.shown = [] ∧ w.exit ≠ none

/-- The deployment ends before the download or DISM has anything to report. -/
def Silent : Prop :=
  w.supplied [preparing plan] ≠ none ∨ w.disk ≠ none ∨
    match ps.bindString "ImageUrl" plan.imageUrl with
    | .error _ => True
    | .ok url => w.DownloadQuiet url ∧ (w.DownloadFails url ∨ w.ApplyQuiet)

/-- What has happened when the deployment ends, where the host allows the depth. -/
def logAt (depth : ℕ) : List Event :=
  (exec (w.invokeDeployment ps depth plan (.block .supplied)) []).2

variable {w ps plan}

theorem exec_callSupplied_ok (w : Host) (log : List Event) (p : ℤ) (a : String)
    (h : w.supplied (log ++ [.seen p a]) = none) :
    exec (w.callSupplied p a) log = (.ok (), log ++ [.seen p a]) := by
  have hget : exec (do failing (w.supplied (← get))) (log ++ [.seen p a])
      = (.ok (), log ++ [.seen p a]) := by
    change exec (failing (w.supplied (log ++ [.seen p a]))) _ = _
    rw [h, exec_failing_none]
  rw [callSupplied, exec_bind_ok (exec_note _), hget]

theorem exec_callSupplied_error (w : Host) (log : List Event) (p : ℤ) (a : String) {e : Fault}
    (h : w.supplied (log ++ [.seen p a]) = some e) :
    exec (w.callSupplied p a) log = (.error e, log ++ [.seen p a]) := by
  have hget : exec (do failing (w.supplied (← get))) (log ++ [.seen p a])
      = (.error e, log ++ [.seen p a]) := by
    change exec (failing (w.supplied (log ++ [.seen p a]))) _ = _
    rw [h, exec_failing_some]
  rw [callSupplied, exec_bind_ok (exec_note _), hget]

/-- A download that fails without a percentage reports nothing. -/
theorem exec_getInstallImage_fails {url : String} (hquiet : w.DownloadQuiet url)
    (hfails : w.DownloadFails url) :
    ∃ e, exec (w.getInstallImage (depth + 2) frames url (.block (.reporting scale))) log
      = (.error e, log) := by
  obtain ⟨hlocal, hfails⟩ := hfails
  rw [getInstallImage, hlocal]
  by_cases hurl : url = ""
  · exact ⟨_, by rw [if_pos hurl, exec_throw]⟩
  simp only [if_neg hurl, invokeHttpsDownload]
  cases hrequest : w.request with
  | some e => exact ⟨e, exec_bind_error (exec_bind_error exec_failing_some)⟩
  | none =>
    have hreads : w.reads = [] := by simpa [DownloadQuiet, hlocal, hurl, hrequest] using hquiet
    obtain ⟨e, hstream⟩ : ∃ e, w.stream = some e := by
      simpa [hurl, hrequest, Option.ne_none_iff_exists'] using hfails
    refine ⟨e, exec_bind_error ?_⟩
    rw [exec_bind_ok exec_failing_none, hreads, List.map_nil, reportChanges, pure_bind, hstream,
      exec_failing_some]

/-- An image that takes no percentage to get. -/
theorem exec_getInstallImage_ok {url : String} (hquiet : w.DownloadQuiet url)
    (hok : ¬ w.DownloadFails url) :
    ∃ img, exec (w.getInstallImage (depth + 2) frames url (.block (.reporting scale))) log
      = (.ok img, log) := by
  rw [getInstallImage]
  cases hlocal : w.localImage with
  | some path => exact ⟨_, exec_pure⟩
  | none =>
    obtain ⟨hurl, hrequest, hstream⟩ : url ≠ "" ∧ w.request = none ∧ w.stream = none := by
      simpa [DownloadFails, hlocal] using hok
    have hreads : w.reads = [] := by simpa [DownloadQuiet, hlocal, hurl, hrequest] using hquiet
    have hdone : ∀ frames, exec (w.invokeHttpsDownload (depth + 1) frames
        (.block (.reporting scale))) log = (.ok (), log) := by
      intro frames
      rw [invokeHttpsDownload, hrequest, exec_bind_ok exec_failing_none, hreads, List.map_nil,
        reportChanges, pure_bind, hstream, exec_failing_none]
    simp only [if_neg hurl]
    exact ⟨_, (exec_bind_ok (hdone _)).trans exec_pure⟩

/-- A download with a percentage does not get past it. -/
theorem exec_getInstallImage_reports {url : String} (h : ¬ w.DownloadQuiet url) :
    ∃ raw, exec (w.getInstallImage (depth + 2) frames url (.block (.reporting scale))) log
      = (.error .callDepth, log ++ [.reporting .download raw]) := by
  obtain ⟨hlocal, hurl, hrequest, hreads⟩ :
      w.localImage = none ∧ url ≠ "" ∧ w.request = none ∧ w.reads ≠ [] := by
    simpa [DownloadQuiet] using h
  obtain ⟨r, rs, hreads⟩ := List.exists_cons_of_ne_nil hreads
  refine ⟨r.percent, ?_⟩
  simp only [getInstallImage, hlocal, if_neg hurl, invokeHttpsDownload]
  rw [exec_bind_error]
  rw [hrequest, exec_bind_ok exec_failing_none, hreads, List.map_cons,
    exec_bind_error (exec_reportChanges r.percent.2.1)]

theorem exec_invokeImageApply_quiet (h : w.ApplyQuiet) :
    ∃ e, exec (w.invokeImageApply (depth + 1) frames (.block (.reporting scale))) log
      = (.error e, log) := by
  obtain ⟨hshown, hexit⟩ := h
  obtain ⟨e, hexit⟩ := Option.ne_none_iff_exists'.mp hexit
  refine ⟨e, ?_⟩
  rw [invokeImageApply, hshown, List.map_nil, reportChanges, pure_bind, hexit,
    exec_bind_error exec_failing_some]

/-- DISM reports a percentage it shows, or that it is done. -/
theorem exec_invokeImageApply_reports (h : ¬ w.ApplyQuiet) :
    ∃ raw, exec (w.invokeImageApply (depth + 1) frames (.block (.reporting scale))) log
      = (.error .callDepth, log ++ [.reporting .apply raw]) := by
  rw [invokeImageApply]
  cases hshown : w.shown with
  | nil =>
    have hexit : w.exit = none := by simpa [ApplyQuiet, hshown] using h
    refine ⟨100, ?_⟩
    rw [List.map_nil, reportChanges, pure_bind, hexit, exec_bind_ok exec_failing_none, exec_report]
  | cons p ps =>
    refine ⟨p, ?_⟩
    rw [List.map_cons, exec_bind_error (exec_reportChanges p.2.1)]

/-! ## The whole deployment -/

/-- Where nothing stops the deployment before, it gets to its image and goes on to apply it. -/
theorem logAt_of_started (depth : ℕ) {url : String} (hsupplied : w.supplied [preparing plan] = none)
    (hdisk : w.disk = none) (hurl : ps.bindString "ImageUrl" plan.imageUrl = .ok url) :
    ∃ rest : Image → Run Unit, w.logAt ps plan (depth + 4) = (exec (do
      let img ← w.getInstallImage (depth + 3) [deploymentFrame (.block .supplied)] url
        (.block (.reporting Stage.download.scale))
      w.invokeImageApply (depth + 3) [deploymentFrame (.block .supplied)]
        (.block (.reporting Stage.apply.scale))
      rest img) [preparing plan]).2 := by
  have hstage := exec_callSupplied_ok w [] 2
    s!"Preparing disk {plan.diskIndex}" hsupplied
  simp only [logAt, invokeDeployment, invoke_stage]
  rw [exec_bind_ok hstage, hdisk, exec_bind_ok exec_failing_none, imageUrl, hurl, pure_bind]
  exact ⟨_, rfl⟩

/-- A deployment that ends before a report shows the caller one percentage. -/
theorem logAt_of_silent (depth : ℕ) (h : w.Silent ps plan) :
    w.logAt ps plan (depth + 4) = [preparing plan] := by
  cases hsupplied : w.supplied [preparing plan] with
  | some e =>
    have hstage := exec_callSupplied_error w [] 2
      s!"Preparing disk {plan.diskIndex}" hsupplied
    simp only [logAt, invokeDeployment, invoke_stage]
    rw [exec_bind_error hstage]
    rfl
  | none =>
  have hstage := exec_callSupplied_ok w [] 2
    s!"Preparing disk {plan.diskIndex}" hsupplied
  cases hdisk : w.disk with
  | some e =>
    simp only [logAt, invokeDeployment, invoke_stage]
    rw [exec_bind_ok hstage, hdisk, exec_bind_error exec_failing_some]
    rfl
  | none =>
  cases hurl : ps.bindString "ImageUrl" plan.imageUrl with
  | error e =>
    simp only [logAt, invokeDeployment, invoke_stage]
    rw [exec_bind_ok hstage, hdisk, exec_bind_ok exec_failing_none, imageUrl, hurl,
      exec_bind_error exec_throw]
    rfl
  | ok url =>
    obtain ⟨hquiet, hends⟩ : w.DownloadQuiet url ∧ (w.DownloadFails url ∨ w.ApplyQuiet) := by
      simpa [Silent, hsupplied, hdisk, hurl] using h
    obtain ⟨rest, hlog⟩ := logAt_of_started depth hsupplied hdisk hurl
    rw [hlog]
    by_cases hfails : w.DownloadFails url
    · obtain ⟨e, hget⟩ := exec_getInstallImage_fails hquiet hfails
      rw [exec_bind_error hget]
    · obtain ⟨img, hget⟩ := exec_getInstallImage_ok hquiet hfails
      obtain ⟨e, happly⟩ := exec_invokeImageApply_quiet (hends.resolve_left hfails)
      rw [exec_bind_ok hget, exec_bind_error happly]

/-- Any other deployment ends in its first report. -/
theorem logAt_of_not_silent (depth : ℕ) (h : ¬ w.Silent ps plan) :
    ∃ s raw, w.logAt ps plan (depth + 4) = [preparing plan, .reporting s raw] := by
  obtain ⟨hsupplied, hdisk, hreports⟩ := not_or.mp h |>.imp_right not_or.mp
  rw [not_not] at hsupplied hdisk
  cases hurl : ps.bindString "ImageUrl" plan.imageUrl with
  | error e => simp [hurl] at hreports
  | ok url =>
    obtain ⟨rest, hlog⟩ := logAt_of_started depth hsupplied hdisk hurl
    rw [hlog]
    by_cases hquiet : w.DownloadQuiet url
    · obtain ⟨hok, happly⟩ : ¬ w.DownloadFails url ∧ ¬ w.ApplyQuiet := by
        simpa [hurl, hquiet] using hreports
      obtain ⟨img, hget⟩ := exec_getInstallImage_ok hquiet hok
      obtain ⟨raw, happly⟩ := exec_invokeImageApply_reports happly
      rw [exec_bind_ok hget, exec_bind_error happly]
      exact ⟨.apply, raw, rfl⟩
    · obtain ⟨raw, hget⟩ := exec_getInstallImage_reports hquiet
      rw [exec_bind_error hget]
      exact ⟨.download, raw, rfl⟩

end Host

/-! ## What the bar is meant to show -/

/-- Each report of a stage calls the caller's block once, with the percentage in the part of the
stage, and returns. -/
def EachReturns (log : List Event) : Prop :=
  ∀ before after s raw, log = before ++ .reporting s raw :: after →
    ∃ activity rest, after = .seen (s.scale raw) activity :: .reported s raw :: rest

/-- The percentages the caller sees. -/
def seenPercents (log : List Event) : List ℤ :=
  log.filterMap fun
    | .seen percent _ => some percent
    | _ => none

/-- The bar moves forwards, from 0 to 100. -/
def Monotone (log : List Event) : Prop :=
  (seenPercents log).Pairwise (· ≤ ·) ∧ ∀ q ∈ seenPercents log, 0 ≤ q ∧ q ≤ 100

/-- The raw percentages of each stage do not go back. -/
def Host.Forwards (w : Host) : Prop :=
  (w.reads.map (·.percent)).Pairwise (· ≤ ·) ∧ w.shown.Pairwise (· ≤ ·)

/-- The reports of a deployment return, and move the bar forwards. -/
def Host.Progresses (w : Host) (ps : PowerShell) (plan : Plan) (depth : ℕ) : Prop :=
  EachReturns (w.logAt ps plan depth) ∧ (w.Forwards → Monotone (w.logAt ps plan depth))

/-- A deployment whose download comes to half. -/
def halfway : Host where
  supplied _ := none
  disk := none
  localImage := none
  request := none
  reads := [⟨⟨50, by decide⟩, "Downloading image  2,048/4,096 MB"⟩]
  stream := none
  shown := []
  exit := none
  boot := none
  unattend := none

def halfwayPlan : Plan where
  diskIndex := 0
  computerName := .str "PC-1"
  imageUrl := .str "https://deploy/images/install.wim"
  unattendTemplate := none
  unattendValues := []

end WinDep.Deploy.Progress
