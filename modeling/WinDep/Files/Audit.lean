/-
# The audit trail of the file API

After a handler ran, the audit middleware classifies the request and inserts a
row. It recognises a request by the path as sent, while the router took the path
in any case; and it skips the answers of an upload in chunks that is not over.
The deploy tree is any file system, which may fail any call.
-/

import WinDep.Files.Confined
import WinDep.Files.Routes
import WinDep.Files.System

namespace WinDep.Audit

open Admin Fs Program Routes

/-! ## Handling a request -/

/-- What the middleware sees of an answer. -/
structure Answered where
  status : ℕ
  contentLength : ℕ

/-- The parameters of the admin: hash, ciphers, keys, and what the handlers that are not modelled
answer. -/
structure App where
  sha256 : Bytes → Digest
  primitives : Primitives
  masterKey : Option Key
  adminToken : String
  elsewhere : HttpRequest → Answered

def Answered.ofReply (reply : Reply) : Answered := ⟨reply.status, 0⟩

/-- The answer of a handler that reads. Only a download sets the length itself. -/
def Answered.ofResult {α : Type} (length : α → ℕ) : Except Reply α → Answered
  | .ok a => ⟨200, length a⟩
  | .error reply => ⟨reply.status, 0⟩

namespace App

variable (app : App)

/-- The program of the request's route. -/
def program (r : HttpRequest) : Fs Answered :=
  match route r.method r.path with
  | .upload category rel => do
    return .ofReply (← Fs.handleUpload app.sha256
      ⟨category, rel, r.uploadLength, r.uploadOffset, r.body⟩)
  | .resume category rel => do
    return .ofReply (← Fs.handleUploadResume app.sha256
      ⟨category, rel, r.uploadLength, r.uploadOffset, r.body⟩)
  | .delete category rel => do return .ofReply (← Fs.handleDelete category rel)
  | .mkdir category rel => do return .ofReply (← Fs.handleMkdir category rel)
  | .configPut rel => do
    return .ofReply (← Fs.handleConfigPut app.sha256 app.primitives app.masterKey r.ivs rel r.body)
  | .offset category rel => do return .ofReply (← Fs.handleUploadOffset category rel)
  | .list => do return .ofResult (fun _ => 0) (← Fs.handleList r.queryCategory r.queryPrefix)
  | .download category rel => do return .ofResult List.length (← Fs.handleDownload category rel)
  | .verify category rel => do
    return .ofResult (fun _ => 0) (← Fs.handleVerify app.sha256 category rel)
  | .wimInfo _ _ => return app.elsewhere r
  | .elsewhere => return app.elsewhere r

end App

/-! ## The middleware -/

structure AuditRow where
  action : String
  category : String
  path : String
  source : String
  size : ℤ
  status : ℕ
  deriving DecidableEq

/-- `strconv.ParseInt` with its error ignored: zero, or the nearest number if out of range. -/
def parsedLength (text : List Char) : ℤ :=
  let (negative, ds) := match text with
    | '-' :: ds => (true, ds)
    | '+' :: ds => (false, ds)
    | ds => (false, ds)
  if ds ≠ [] ∧ ds.all Char.isDigit then
    max (-2 ^ 63) (min (2 ^ 63 - 1) (Number.signed negative (Nat.ofDigitChars 10 ds 0)))
  else 0

/-- `strings.HasPrefix` -/
def startsWith (start path : String) : Bool := start.toList.isPrefixOf path.toList

/-- The action, category, path and size of a request; the action is empty for what is not
recorded. -/
def classify (r : HttpRequest) (res : Answered) : String × String × String × ℤ :=
  let (category, rel) := (route r.method r.path).params
  match r.method with
  | .put =>
    if startsWith filesConst r.path then ("upload", category, rel, max 0 r.contentLength)
    else if startsWith "/api/config/" r.path then ("config", "config", rel, 0)
    else ("", "", "", 0)
  | .patch =>
    if startsWith filesConst r.path then
      ("upload", category, rel, max 0 (parsedLength r.uploadLength))
    else ("", "", "", 0)
  | .delete =>
    if startsWith filesConst r.path then ("delete", category, rel, 0) else ("", "", "", 0)
  | .post =>
    if startsWith foldersConst r.path then ("mkdir", category, rel, 0)
    else if startsWith verifyConst r.path then ("verify", category, rel, 0)
    else ("", "", "", 0)
  | .get =>
    if startsWith downloadConst r.path then ("download", category, rel, res.contentLength)
    else if r.path = "/api/files" then ("list", r.queryCategory, r.queryPrefix, 0)
    else ("", "", "", 0)
  | _ => ("", "", "", 0)

/-- The rows inserted for an answered request. -/
def auditMW (r : HttpRequest) (res : Answered) : List AuditRow :=
  let (action, category, path, size) := classify r res
  if action = "" then []
  -- the chunks of an upload that is not over are not recorded
  else if r.method = .patch ∧ (res.status = 204 ∨ res.status = 409) then []
  else [⟨action, category, path, r.ip, size, res.status⟩]

/-- `strings.TrimPrefix(header, "Bearer ")` -/
def bearerToken (header : String) : String :=
  if startsWith "Bearer " header then String.ofList (header.toList.drop 7) else header

/-- The request reaches the group of the API, and its token is wrong. -/
def refused (app : App) (r : HttpRequest) : Bool :=
  (afterConst "/api" (trimmed r.path)).isSome && app.adminToken != "" &&
    bearerToken r.authorization != app.adminToken

structure State (σ : Type) where
  files : σ
  audit : List AuditRow

variable {σ : Type}

/-- Handle a request: the status the client receives, and the state after it. -/
def handle (fs : FileSystem σ) (app : App) (s : State σ) (r : HttpRequest) : ℕ × State σ :=
  if refused app r then (401, s)
  else
    let (res, files) := (app.program r).run fs.serve s.files
    -- outside the group no middleware records, and no row would be made
    (res.status, ⟨files, s.audit ++ auditMW r res⟩)

/-! ## What is recorded -/

/-- The handler that a route that writes belongs to, and the parameters. -/
def writerOf : Route → Option (Writer × String × String)
  | .upload category rel => some (.upload, category, rel)
  | .resume category rel => some (.resume, category, rel)
  | .delete category rel => some (.delete, category, rel)
  | .mkdir category rel => some (.mkdir, category, rel)
  | .configPut rel => some (.configPut, "", rel)
  | _ => none

/-- The category and path of a request. -/
def target (r : HttpRequest) : Option (String × String) :=
  (writerOf (route r.method r.path)).map fun (w, param, rel) => (w.categoryOf param, rel)

/-- Some entry below a category appears in a listing, changes there or disappears. -/
def Changes (fs : FileSystem σ) (s s' : σ) : Prop :=
  ∃ category ∈ categories, ∃ p, Below category p ∧ rowOf (fs.node s) p ≠ rowOf (fs.node s') p

/-- A request that changes a listing leaves a row with an action, with its category and path, and
with the status the client receives. -/
def Recorded (fs : FileSystem σ) (app : App) (s : State σ) (r : HttpRequest) : Prop :=
  Changes fs s.files (handle fs app s r).2.files →
    ∃ rows row, (handle fs app s r).2.audit = s.audit ++ rows ∧ row ∈ rows ∧ row.action ≠ "" ∧
      target r = some (row.category, row.path) ∧ row.status = (handle fs app s r).1

/-- The beginning of the path by which the middleware recognises a handler. -/
def spelling : Writer → String
  | .upload => filesConst
  | .resume => filesConst
  | .delete => filesConst
  | .mkdir => foldersConst
  | .configPut => "/api/config/"

/-- A request that its handler accepts begins as the middleware expects, letter by letter. -/
def Spelled (r : HttpRequest) : Prop :=
  ∀ w param rel, writerOf (route r.method r.path) = some (w, param, rel) → w.Accepts param rel →
    startsWith (spelling w) r.path = true

/-- A chunk finds the folders it goes to, or else it is the whole upload or breaks off. -/
def FindsFolders (fs : FileSystem σ) (s : σ) (r : HttpRequest) : Prop :=
  ∀ category rel dest offset total, route r.method r.path = .resume category rel →
    parseResume ⟨category, rel, r.uploadLength, r.uploadOffset, r.body⟩ =
        .ok (dest, offset, total) →
      (∀ q : Path, q <+: dest.dropLast → Below category q → reserved q.base = false →
        fs.node s q ≠ none) ∨
      fs.node s (dest.withExt partExt) = none ∧ offset = 0 ∧
        (¬ (r.body.limit total).Ends ∨ total ≤ r.body.bytes.length)

/-! ## Which requests change a listing -/

variable {fs : FileSystem σ} {app : App} {s : State σ} {r : HttpRequest} {α : Type} {m : Fs α}
  {w : Writer} {param rel : String}

/-- A program that only reads changes no listing. -/
theorem not_changes_of_reads (h : m.Always (Touching fun _ => False)) (files : σ) :
    ¬ Changes fs files (m.run fs.serve files).2 := by
  rintro ⟨category, -, p, -, hrow⟩
  apply hrow
  have hnode (q : Path) := node_run fs files h (q := q) id
  exact (rowOf_eq (fun _ => hnode p) fun _ => by rw [hnode]).symm

/-- The program of a route that writes is that of its handler. -/
theorem program_of_writer (h : writerOf (route r.method r.path) = some (w, param, rel)) :
    app.program r = (do
      return .ofReply (← w.program app.sha256 app.primitives app.masterKey r.ivs
        ⟨param, rel, r.uploadLength, r.uploadOffset, r.body⟩)) := by
  unfold App.program
  cases hroute : route r.method r.path
  all_goals
    rw [hroute] at h
    simp only [writerOf, Option.some.injEq, Prod.mk.injEq, reduceCtorEq] at h
  all_goals
    obtain ⟨rfl, rfl, rfl⟩ := h
    rfl

/-- What no handler that writes takes only reads. -/
theorem reads_program (h : writerOf (route r.method r.path) = none) :
    (app.program r).Always (Touching fun _ => False) := by
  unfold App.program
  cases hroute : route r.method r.path with
  | upload | resume | delete | mkdir | configPut => simp [hroute, writerOf] at h
  | offset category rel => exact always_bind (reads_handleUploadOffset _ _) fun _ => always_pure _
  | list => exact always_bind (reads_handleList _ _) fun _ => always_pure _
  | download category rel => exact always_bind (reads_handleDownload _ _) fun _ => always_pure _
  | verify category rel => exact always_bind (reads_handleVerify _ _ _) fun _ => always_pure _
  | wimInfo | elsewhere => exact always_pure _

/-- A request that its handler does not accept changes nothing. -/
theorem reads_refused (h : writerOf (route r.method r.path) = some (w, param, rel))
    (hacc : ¬ w.Accepts param rel) : (app.program r).Always (Touching fun _ => False) := by
  rw [program_of_writer h]
  obtain ⟨reply, hreply⟩ := program_refused
    (r := ⟨param, rel, r.uploadLength, r.uploadOffset, r.body⟩) hacc app.sha256 app.primitives
    app.masterKey r.ivs
  rw [hreply]
  exact always_pure _

/-- The method of the routes of a handler. -/
def methodOf : Writer → Method
  | .upload => .put
  | .resume => .patch
  | .mkdir => .post
  | .delete => .delete
  | .configPut => .put

theorem method_of_writer (h : writerOf (route r.method r.path) = some (w, param, rel)) :
    r.method = methodOf w := by
  unfold route at h
  cases hmethod : r.method
  all_goals
    rw [hmethod] at h
    dsimp only at h
    repeat' split at h
    all_goals simp_all [writerOf, methodOf]
  all_goals rw [← h.1]

theorem resume_of_patch (h : writerOf (route r.method r.path) = some (w, param, rel))
    (hpatch : r.method = .patch) : route r.method r.path = .resume param rel ∧ w = .resume := by
  have hw : w = .resume := by
    have hmethod := method_of_writer h
    cases w <;> simp_all [methodOf]
  subst hw
  cases hroute : route r.method r.path <;> simp_all [writerOf]

theorem not_startsWith_files {path : String} (h : startsWith "/api/config/" path = true) :
    startsWith filesConst path = false := by
  rw [startsWith, List.isPrefixOf_iff_prefix] at h
  rw [startsWith, ← Bool.not_eq_true, List.isPrefixOf_iff_prefix]
  intro hfiles
  have hpre := List.prefix_of_prefix_length_le hfiles h (by decide)
  exact absurd hpre (by decide)

/-- The middleware recognises a request that is spelled as it expects. -/
theorem classify_spelled (res : Answered)
    (h : writerOf (route r.method r.path) = some (w, param, rel))
    (hspell : startsWith (spelling w) r.path = true) : ∃ action size, action ≠ "" ∧
      classify r res = (action, w.categoryOf param, rel, size) := by
  have hmethod := method_of_writer h
  have hparams : (route r.method r.path).params = (param, rel) := by
    cases hroute : route r.method r.path
    all_goals
      rw [hroute] at h
      simp_all [writerOf, Route.params]
  unfold classify
  rw [hparams, hmethod]
  cases w with
  | upload => exact ⟨_, _, by decide, if_pos hspell⟩
  | resume => exact ⟨_, _, by decide, if_pos hspell⟩
  | delete => exact ⟨_, _, by decide, if_pos hspell⟩
  | mkdir => exact ⟨_, _, by decide, if_pos hspell⟩
  | configPut =>
    have hfiles : startsWith filesConst r.path = false := not_startsWith_files hspell
    have hconfig : startsWith "/api/config/" r.path = true := hspell
    exact ⟨"config", 0, by decide, by simp [methodOf, hfiles, hconfig, Writer.categoryOf]⟩

/-- A chunk that is not recorded finds its folders, and so changes no listing. -/
theorem not_changes_of_chunk (h : route r.method r.path = .resume param rel)
    (hacc : Writer.resume.Accepts param rel) (hfinds : FindsFolders fs s.files r)
    (hstatus : ((app.program r).run fs.serve s.files).1.status = 204 ∨
      ((app.program r).run fs.serve s.files).1.status = 409) :
    ¬ Changes fs s.files ((app.program r).run fs.serve s.files).2 := by
  have hprogram : app.program r = (do
      return .ofReply (← Fs.handleUploadResume app.sha256
        ⟨param, rel, r.uploadLength, r.uploadOffset, r.body⟩)) := by
    unfold App.program
    rw [h]
  rw [hprogram] at hstatus ⊢
  simp only [run_bind, run_pure] at hstatus ⊢
  cases hparse : parseResume ⟨param, rel, r.uploadLength, r.uploadOffset, r.body⟩ with
  | error reply =>
    have hreply : Fs.handleUploadResume app.sha256
        ⟨param, rel, r.uploadLength, r.uploadOffset, r.body⟩ = pure reply := by
      rw [Fs.handleUploadResume, hparse]
    rw [hreply]
    exact not_changes_of_reads (always_pure reply) s.files
  | ok parsed =>
    obtain ⟨dest, offset, total⟩ := parsed
    rcases hfinds param rel dest offset total h hparse with hfolders | ⟨hpart, rfl, hbody⟩
    · rintro ⟨category, hcat, p, hbelow, hrow⟩
      apply hrow
      have hdest : dest = param :: Path.join [] rel := by
        have htarget := targetPath_of_parseResume hparse
        rw [targetPath_eq hacc.1 hacc.2] at htarget
        exact (Except.ok.inj htarget).symm
      symm
      apply rowOf_eq
      · intro hfree
        rcases run_chunk hparse hstatus (ne_of_reserved hfree reserved_part) with hsame | hmade
        · exact hsame
        · obtain ⟨hnone, hpre, -⟩ := hmade
          -- the folder lies in the category of the upload, so it was there
          have hin : Below param p := by
            obtain ⟨name, rest, rfl⟩ := hbelow
            obtain ⟨tail, htail⟩ := hpre.trans (List.dropLast_prefix dest)
            rw [hdest] at htail
            exact ⟨name, rest, by rw [(List.cons.inj htail).1]⟩
          exact absurd hnone (hfolders p hpre hin hfree)
      · intro hfree
        rcases run_chunk hparse hstatus sidecar_ne_part with hsame | ⟨hnone, -, hfolder⟩
        · rw [hsame]
        · rw [hnone, hfolder]
          rfl
    · exact absurd hstatus (run_whole hparse hpart hbody)

/-! ## Runs -/

theorem handle_of_refused (h : refused app r = true) : handle fs app s r = (401, s) := if_pos h

theorem handle_eq (h : refused app r = false) : handle fs app s r =
    (((app.program r).run fs.serve s.files).1.status,
      ⟨((app.program r).run fs.serve s.files).2,
        s.audit ++ auditMW r ((app.program r).run fs.serve s.files).1⟩) := by
  rw [handle, if_neg (by simp [h])]

/-- One request. -/
theorem recorded_of_spelled (hspelled : Spelled r) (hfinds : FindsFolders fs s.files r) :
    Recorded fs app s r := by
  intro hchanges
  cases hrefused : refused app r with
  | true =>
    rw [handle_of_refused hrefused] at hchanges
    obtain ⟨_, -, p, -, hrow⟩ := hchanges
    exact absurd rfl hrow
  | false =>
    rw [handle_eq hrefused] at hchanges ⊢
    cases hwriter : writerOf (route r.method r.path) with
    | none => exact absurd hchanges (not_changes_of_reads (reads_program hwriter) s.files)
    | some found =>
      obtain ⟨w, param, rel⟩ := found
      by_cases hacc : w.Accepts param rel
      · set res := ((app.program r).run fs.serve s.files).1 with hres
        obtain ⟨action, size, haction, hclassify⟩ :=
          classify_spelled res hwriter (hspelled w param rel hwriter hacc)
        have hrecorded : ¬ (r.method = .patch ∧ (res.status = 204 ∨ res.status = 409)) := by
          rintro ⟨hpatch, hstatus⟩
          obtain ⟨hroute, rfl⟩ := resume_of_patch hwriter hpatch
          exact not_changes_of_chunk hroute hacc hfinds hstatus hchanges
        refine ⟨_, ⟨action, w.categoryOf param, rel, r.ip, size, res.status⟩, rfl, ?_, haction, ?_,
          rfl⟩
        · rw [auditMW, hclassify]
          dsimp only
          rw [if_neg haction, if_neg hrecorded]
          exact List.mem_singleton_self _
        · rw [target, hwriter]
          rfl
      · exact absurd hchanges (not_changes_of_reads (reads_refused hwriter hacc) s.files)

/-- The property holds of every request of a run, in the state that the request finds. -/
def Along (fs : FileSystem σ) (app : App) (P : State σ → HttpRequest → Prop) :
    State σ → List HttpRequest → Prop
  | _, [] => True
  | s, r :: rs => P s r ∧ Along fs app P (handle fs app s r).2 rs

def sampleApp : App := ⟨sampleDigest, default, none, "", fun _ => ⟨404, 0⟩⟩

/-- An upload of one byte. -/
def samplePut (path : String) : HttpRequest :=
  ⟨.put, path, "", "", "", "10.0.0.1", 1, [], [], .ofBytes [1], sampleIVs⟩

def sampleState : State FileTree := ⟨FileTree.empty, []⟩

/-- A chunk that is a whole upload of one byte. -/
def samplePatch (path : String) : HttpRequest :=
  { samplePut path with method := .patch, uploadLength := ['1'], uploadOffset := ['0'] }

def sampleDelete (path : String) : HttpRequest := { samplePut path with method := .delete }

theorem spelled_of_route (h : writerOf (route r.method r.path) = some (w, param, rel))
    (hspell : startsWith (spelling w) r.path = true) : Spelled r := by
  intro w' param' rel' hwriter _
  rw [h, Option.some.injEq, Prod.mk.injEq] at hwriter
  exact hwriter.1 ▸ hspell

/-- Every other request than a chunk. -/
theorem findsFolders_of_ne {files : σ} (h : r.method ≠ .patch) : FindsFolders fs files r := by
  intro category rel dest offset total hroute _
  have hwriter : writerOf (route r.method r.path) = some (.resume, category, rel) := by
    rw [hroute, writerOf]
  exact absurd (method_of_writer hwriter) h

/-- A chunk of an upload to the folder of a category, which needs no folder below it. -/
theorem findsFolders_of_root {files : σ} {name : String}
    (h : targetPath ⟨param, rel, r.uploadLength, r.uploadOffset, r.body⟩ = .ok [param, name])
    (hroute : route r.method r.path = .resume param rel) : FindsFolders fs files r := by
  intro category rel' dest offset total hroute' hparse
  rw [hroute, Route.resume.injEq] at hroute'
  obtain ⟨rfl, rfl⟩ := hroute'
  have hdest := targetPath_of_parseResume hparse
  rw [h, Except.ok.injEq] at hdest
  subst hdest
  refine .inl fun q hq hbelow => ?_
  obtain ⟨s, rest, rfl⟩ := hbelow
  exact absurd hq.length_le (by simp)

end WinDep.Audit
