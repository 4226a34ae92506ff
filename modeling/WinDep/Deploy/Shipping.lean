/-
# Shipping the log

The headless script ships what a deployment logs to the api, in batches of
twelve lines. What is left in the buffer is shipped after the deployment, but not
where the deployment fails.
-/

import WinDep.Data.Batch
import Mathlib.Data.String.Basic

namespace WinDep.Deploy

/-- `[ValidateSet('INFO','WARN','ERROR')]` -/
inductive Level
  | info
  | warn
  | error
  deriving DecidableEq

def Level.text : Level → String
  | info => "INFO"
  | warn => "WARN"
  | error => "ERROR"

/-- `"[{0}] {1}" -f $lvl, $m` -/
def logLine (level : Level) (message : String) : String :=
  "[" ++ level.text ++ "] " ++ message

namespace Shipping

/-- What a deployment logs, and the error it ends with. -/
structure Deployment where
  lines : List (Level × String)
  error : Option String

section

variable (apiUrl : String)

/-- `$shipFlush`; the batches that were sent are the calls of `Send-ZtpLog`. -/
def shipFlush (logBuf : Batcher String) : Batcher String :=
  if apiUrl ≠ "" ∧ 0 < logBuf.buffer.length then ⟨[], logBuf.sent ++ [logBuf.buffer]⟩ else logBuf

/-- `$onLogShip` -/
def onLogShip (logBuf : Batcher String) (line : Level × String) : Batcher String :=
  let logBuf := { logBuf with buffer := logBuf.buffer ++ [logLine line.1 line.2] }
  if 12 ≤ logBuf.buffer.length then shipFlush apiUrl logBuf else logBuf

/-- The deployment of the zero-touch path, to its exit code. -/
def invokeDeployment (d : Deployment) : ℕ × Batcher String :=
  let logBuf := d.lines.foldl (onLogShip apiUrl) .empty
  match d.error with
  | none => (0, shipFlush apiUrl logBuf)
  -- the handler reports the error and does not ship
  | some _ => (1, logBuf)

/-- The lines that were handed to `Send-ZtpLog` when the script exits. -/
def shipped (d : Deployment) : List String := (invokeDeployment apiUrl d).2.sent.flatten

end

variable {apiUrl : String} {logBuf : Batcher String}

theorem shipFlush_eq (h : apiUrl ≠ "") : shipFlush apiUrl logBuf = logBuf.flush := by
  rw [shipFlush, Batcher.flush]
  by_cases hnil : logBuf.buffer = []
  · rw [if_pos hnil, if_neg (by simp [hnil])]
  · rw [if_neg hnil, if_pos ⟨h, List.length_pos_iff.mpr hnil⟩]

theorem onLogShip_eq (h : apiUrl ≠ "") (line : Level × String) :
    onLogShip apiUrl logBuf line = logBuf.push 12 (logLine line.1 line.2) := by
  rw [onLogShip, shipFlush_eq h]
  rfl

/-- The log of a deployment goes through batches of twelve. -/
theorem foldl_onLogShip (h : apiUrl ≠ "") (lines : List (Level × String)) :
    lines.foldl (onLogShip apiUrl) logBuf =
      (lines.map fun line => logLine line.1 line.2).foldl (Batcher.push 12) logBuf := by
  rw [List.foldl_map]
  congr 1
  funext logBuf line
  exact onLogShip_eq h line

/-- **Every line is shipped once and in order exactly if the deployment finishes, or fails right
after a full batch.** -/
theorem shipped_iff (h : apiUrl ≠ "") (d : Deployment) :
    shipped apiUrl d = d.lines.map (fun line => logLine line.1 line.2) ↔
      d.error = none ∨ d.lines.length % 12 = 0 := by
  rw [shipped, invokeDeployment, foldl_onLogShip h]
  cases d.error with
  | none =>
    -- the last flush empties the buffer, so that what was pushed was sent
    simp only [shipFlush_eq h, true_or, iff_true]
    have hpushed := Batcher.pushed_foldl 12 .empty
      (d.lines.map fun line => logLine line.1 line.2)
    rw [← Batcher.pushed_flush, Batcher.pushed, Batcher.buffer_flush, List.append_nil] at hpushed
    exact hpushed
  | some e =>
    rw [Batcher.sent_foldl_iff (by decide), List.length_map]
    simp

/-- A deployment that finishes after more lines than one batch takes. -/
def finished : Deployment where
  lines := (.info, "Disk 0 partitioned.") ::
    (List.range 14).map fun n => (.info, "Downloading image: " ++ toString (7 * n) ++ "%")
  error := none

/-- It is shipped in two batches. -/
theorem shipped_finished :
    (invokeDeployment "https://api" finished).2.sent.map List.length = [12, 3] ∧
      shipped "https://api" finished =
        finished.lines.map fun line => logLine line.1 line.2 :=
  ⟨by decide, (shipped_iff (by decide) finished).mpr (.inl rfl)⟩

/-- A deployment that fails after one line. -/
def failedOnce : Deployment := ⟨[(.info, "Applying image index 1 to W:\\ ...")], some "DISM failed"⟩

/-- The line before the failure is not shipped. -/
theorem not_shipped_failedOnce : shipped "https://api" failedOnce ≠
    failedOnce.lines.map fun line => logLine line.1 line.2 := by
  decide

end Shipping

end WinDep.Deploy
