/-
# Calls that fail on the file tree

A call is served, or refused, or broken off after a part of its work. Renaming is
atomic: it happens or not. A file that is staged and renamed into place is there
whole or is as it was, and it is there exactly when no call up to the renaming
went wrong.
-/

import WinDep.Data.Faults
import WinDep.Files.System

namespace WinDep.Fs

open Admin FileTree Program Function

/-- How a call goes. -/
inductive Outcome
  | done
  | refused
  /-- after so many bytes or folders -/
  | broken (k : ℕ)
  deriving DecidableEq

/-- What a call that fails is answered. -/
def failure : (c : FsCall) → c.Answer
  | .stat _ => .failed
  -- the start of a document is none, so that bytes read before the failure count as nothing
  | .readFile _ => none
  | .readDir _ => .failed
  | .mkdirAll _ | .openFile _ _ | .write _ _ | .sync _ | .close _ | .rename _ _ | .remove _
  | .removeAll _ | .writeFile _ _ => false

/-- What a call that is broken off has done. -/
def breakOff (k : ℕ) : FsCall → FileTree → FileTree
  | .mkdirAll p, t => (p.inits.take k).foldl mkdir t
  | .write p b, t => (serve (.write p (b.take k)) t).2
  | .writeFile p b, t => (t.putFile p (b.take k)).2
  | _, t => t

def serveWith : Outcome → (c : FsCall) → FileTree → c.Answer × FileTree
  | .done, c, t => serve c t
  | .refused, c, t => (failure c, t)
  | .broken k, c, t => (failure c, breakOff k c t)

@[simp] theorem serveWith_done : serveWith .done = serve := rfl

variable {α β : Type} {t t' : FileTree} {p q dest : Path} {b c : Bytes} {src : Stream}
  {sha256 : Bytes → Digest} {o : Outcome} {os os' : List Outcome} {m : Fs α} {f : α → Fs β}
  {S : Path → Prop}

/-- The process of a program on the tree. -/
abbrev live (m : Fs α) (os : List Outcome) (t : FileTree) : Left Outcome α FileTree :=
  m.play serveWith os t

theorem live_bind_of_some {a : α} (h : (live m os t).result = some a) :
    live (m >>= f) os t = live (f a) (live m os t).outcomes (live m os t).state :=
  play_bind_of_some h

theorem live_bind_of_none (h : (live m os t).result = none) :
    live (m >>= f) os t = ⟨none, (live m os t).outcomes, (live m os t).state⟩ :=
  play_bind_of_none h

theorem node_mkdirs_other (ps : List Path) (hq : q ∉ ps) :
    (ps.foldl mkdir t).node q = t.node q := by
  induction ps generalizing t with
  | nil => rfl
  | cons p ps ih =>
    rw [List.mem_cons, not_or] at hq
    rw [List.foldl_cons, ih hq.2, node_mkdir, if_neg fun h => hq.1 h.1]

/-- **Frame.** Whatever its outcome, a call changes nothing but the entries it touches. -/
theorem node_serveWith {c : FsCall} (h : ¬ c.Touches q) :
    (serveWith o c t).2.node q = t.node q := by
  cases o with
  | done => exact node_serve h
  | refused => rfl
  | broken k =>
    cases c with
    | mkdirAll p =>
      by_cases hq : q = []
      · rw [hq, node_nil, node_nil]
      · refine node_mkdirs_other _ fun hmem => h ⟨hq, ?_⟩
        exact (List.mem_inits _ _).mp (List.mem_of_mem_take hmem)
    | write p b => exact node_serve (c := .write p (b.take k)) h
    | writeFile p b => exact node_serve (c := .writeFile p (b.take k)) h
    | stat | readFile | readDir | openFile | sync | close | rename | remove | removeAll => rfl

theorem node_live (h : m.Always (Touching S)) (hq : ¬ S q) :
    (live m os t).state.node q = t.node q := by
  let Same : FileTree → Prop := fun t' => t'.node q = t.node q
  have hsame : Same (live m os t).state := by
    apply h.play_invariant
    · intro o c t' hc ht'
      exact (node_serveWith fun htouch => hq (hc q htouch)).trans ht'
    · rfl
  exact hsame

/-- A renaming that is not done changes nothing. -/
theorem serveWith_rename (h : (serveWith o (.rename p q) t).1 ≠ true) :
    (serveWith o (.rename p q) t).2 = t := by
  cases o with
  | done =>
    simp only [serveWith_done, serve] at h ⊢
    cases hc : t.content p with
    | none => rfl
    | some b =>
      simp only [hc] at h ⊢
      split_ifs at h ⊢
      · exact absurd rfl h
      · exact absurd rfl h
      · rfl
  | refused => rfl
  | broken k => rfl

/-! ## What only succeeds where all goes well -/

/-- All goes well, or the program does not succeed. -/
abbrev Strict (ok : α → Prop) (m : Fs α) (t : FileTree) : Prop :=
  Demands serveWith .done ok m t

/-- A call that is answered with a failure did not succeed. -/
theorem strict_call {c : FsCall} {ok : c.Answer → Prop} (h : ¬ ok (failure c)) :
    Strict ok (perform c : Fs c.Answer) t := by
  apply demands_perform
  intro o ho
  cases o with
  | done => exact absurd rfl ho
  | refused | broken k => exact h

/-- A program that goes on only if its first part succeeds. -/
theorem strict_ite {m : Fs Bool} {f g : Fs α} {ok : α → Prop} (hm : Strict (· = true) m t)
    (hf : Strict ok f (exec m t).2) (hg : Fails serveWith ok g) :
    Strict ok (m >>= fun b => if b = true then f else g) t := by
  apply demands_bind hm
  · change Strict ok (if (exec m t).1 = true then f else g) (exec m t).2
    split_ifs
    · exact hf
    · exact hg.demands
  · intro b hb
    rwa [if_neg hb]

theorem fails_none : Fails serveWith (fun r => r.isSome = true) (pure none : Fs (Option α)) :=
  fails_pure (by simp)

/-! ## Copying -/

/-- The calls that write some bytes. -/
def writeCalls (b : Bytes) (pending : ℕ) : ℕ :=
  if b = [] then 0 else if pending + b.length < syncEvery then 1 else 2

/-- What is not flushed after some bytes were written. -/
def pendingAfter (b : Bytes) (pending : ℕ) : ℕ :=
  if b = [] then pending
  else if pending + b.length < syncEvery then pending + b.length else 0

/-- The calls that copy a stream, where none fails. -/
def copyCalls : Stream → ℕ → ℕ
  | [], _ => 1
  | r :: rs, pending =>
    writeCalls r.data pending +
      match r.ending with
      | .eof => 1
      | .failed => 0
      | .more => copyCalls rs (pendingAfter r.data pending)

/-- The calls a program makes where none fails. -/
def callCount (m : Fs α) (t : FileTree) : ℕ := m.calls serve t

@[simp] theorem callCount_pure (a : α) : callCount (pure a : Fs α) t = 0 := rfl

@[simp] theorem callCount_bind :
    callCount (m >>= f) t = callCount m t + callCount (f (exec m t).1) (exec m t).2 := calls_bind

@[simp] theorem callCount_openFile {truncate : Bool} : callCount (openFile p truncate) t = 1 := rfl

@[simp] theorem callCount_write : callCount (write p b) t = 1 := rfl

@[simp] theorem callCount_sync : callCount (sync p) t = 1 := rfl

@[simp] theorem callCount_close : callCount (close p) t = 1 := rfl

@[simp] theorem callCount_rename : callCount (rename p q) t = 1 := rfl

@[simp] theorem callCount_readFile : callCount (readFile p) t = 1 := rfl

theorem exec_writeData_pending (h : t.node p = some (.file c)) (pending : ℕ) :
    (exec (writeData p b pending) t).1 = some (pendingAfter b pending) ∧
      callCount (writeData p b pending) t = writeCalls b pending := by
  have hwrite : (exec (write p b) t).1 = true := by
    rw [exec_write (content_eq_some.mpr h)]
    exact (putFile_of_file h).1
  unfold writeData pendingAfter writeCalls
  split_ifs with hb hlt
  · exact ⟨rfl, rfl⟩
  · simp [writeChunk, hwrite, hlt]
  · simp [writeChunk, hwrite, hlt]

theorem callCount_copyChunks (src : Stream) (h : t.node p = some (.file c)) (pending total : ℕ) :
    callCount (copyChunks p src pending total) t = copyCalls src pending := by
  induction src generalizing t c pending total with
  | nil => rfl
  | cons r rs ih =>
    obtain ⟨hpending, hcalls⟩ := exec_writeData_pending h pending (b := r.data)
    rw [copyChunks, copyCalls]
    simp only [callCount_bind, hpending, hcalls]
    cases hend : r.ending with
    | eof => rfl
    | failed => rfl
    | more =>
      have hfile : (exec (writeData p r.data pending) t).2.node p = some (.file (c ++ r.data)) := by
        rw [(exec_writeData h pending).2, update_self]
      exact congrArg _ (ih hfile _ _)

theorem strict_write : Strict (· = true) (write p b) t :=
  strict_call (c := .write p b) Bool.false_ne_true

theorem strict_sync : Strict (· = true) (sync p) t := strict_call (c := .sync p) Bool.false_ne_true

theorem strict_writeData {pending : ℕ} :
    Strict (fun r => r.isSome = true) (writeData p b pending) t := by
  unfold writeData writeChunk
  split_ifs with hb hlt
  · exact demands_pure
  · exact strict_ite strict_write demands_pure fails_none
  · exact strict_ite strict_write (strict_ite strict_sync demands_pure fails_none) fails_none

/-- A copy that is not told that all went well is a failed one. -/
theorem strict_copyChunks (src : Stream) (pending total : ℕ) :
    Strict (fun r => r.2 = true) (copyChunks p src pending total) t := by
  have hsynced (n : ℕ) (t : FileTree) :
      Strict (fun r => r.2 = true) (do return (n, ← sync p)) t :=
    demands_bind strict_sync demands_pure fun a ha => fails_pure ha
  induction src generalizing t pending total with
  | nil => exact hsynced total t
  | cons r rs ih =>
    rw [copyChunks]
    apply demands_bind strict_writeData
    · cases ((writeData p r.data pending).run (serveWith .done) t).1 with
      | none => exact demands_pure
      | some pending' =>
        cases hend : r.ending with
        | more => simpa only [hend] using ih pending' _
        | eof => simpa only [hend] using hsynced _ _
        | failed => simpa only [hend] using demands_pure
    · intro written hnone
      cases written with
      | none => exact fails_pure Bool.false_ne_true
      | some pending' => exact absurd rfl hnone

theorem strict_close : Strict (· = true) (close p) t :=
  strict_call (c := .close p) Bool.false_ne_true

theorem strict_rename : Strict (· = true) (rename p q) t :=
  strict_call (c := .rename p q) Bool.false_ne_true

theorem strict_openFile {truncate : Bool} : Strict (· = true) (openFile p truncate) t :=
  strict_call (c := .openFile p truncate) Bool.false_ne_true

theorem strict_readFile : Strict (fun r => r.isSome = true) (readFile p) t :=
  strict_call (c := .readFile p) Bool.false_ne_true

theorem strict_renameIf {ok : Bool} : Strict (· = true) (renameIf ok p q) t := by
  cases ok with
  | false => exact demands_pure
  | true => exact strict_rename

/-! ## Publishing -/

theorem strict_saveStream :
    Strict (fun r => r.isSome = true) (saveStream sha256 dest src) t := by
  have hremove : Fails serveWith (fun r => r.isSome = true)
      (do let _ ← remove (dest.withExt partExt); return (none : Option Digest)) :=
    fails_bind fun _ => fails_none
  refine strict_ite strict_openFile ?_ fails_none
  apply demands_bind (strict_copyChunks src 0 0)
  · apply demands_bind strict_close
    · exact strict_ite strict_renameIf demands_pure hremove
    · intro closed hclosed
      rw [Bool.not_eq_true] at hclosed
      rw [hclosed, Bool.and_false]
      exact hremove
  · intro copied hcopied
    rw [Bool.not_eq_true] at hcopied
    refine fails_bind fun closed => ?_
    rw [hcopied, Bool.false_and]
    exact hremove

theorem strict_finalizePart :
    Strict (fun r => r.isSome = true) (finalizePart sha256 p q) t := by
  apply demands_bind strict_readFile
  · cases ((readFile p).run (serveWith .done) t).1 with
    | none => exact demands_pure
    | some staged => exact strict_ite strict_rename demands_pure fails_none
  · intro staged hnone
    cases staged with
    | none => exact fails_none
    | some staged => exact absurd rfl hnone

theorem strict_appendStream {limit : ℕ} :
    Strict (fun r => r.2 = true) (appendStream p src limit) t := by
  refine strict_ite strict_openFile ?_ (fails_pure Bool.false_ne_true)
  apply demands_bind (strict_copyChunks _ 0 0)
  · apply demands_bind strict_close
    · exact demands_pure
    · intro closed hclosed
      rw [Bool.not_eq_true] at hclosed
      rw [hclosed, Bool.and_false]
      exact fails_pure Bool.false_ne_true
  · intro copied hcopied
    rw [Bool.not_eq_true] at hcopied
    refine fails_bind fun closed => ?_
    rw [hcopied, Bool.false_and]
    exact fails_pure Bool.false_ne_true

/-! ## What is left where it does not succeed -/

/-- Unless the program succeeds, the entry is as it was. -/
def Steady (ok : α → Prop) (q : Path) (m : Fs α) : Prop :=
  ∀ os t, (∀ a, (live m os t).result = some a → ¬ ok a) →
    (live m os t).state.node q = t.node q

variable {ok : α → Prop}

theorem steady_of_always (h : m.Always (Touching (· ≠ q))) : Steady ok q m :=
  fun _ _ _ => node_live h fun hne => hne rfl

theorem steady_bind {ok : β → Prop} (hm : m.Always (Touching (· ≠ q)))
    (hf : ∀ a, Steady ok q (f a)) : Steady ok q (m >>= f) := by
  intro os t hbad
  have hstay : (live m os t).state.node q = t.node q := node_live hm fun hne => hne rfl
  cases hresult : (live m os t).result with
  | none =>
    rw [live_bind_of_none hresult]
    exact hstay
  | some a =>
    rw [live_bind_of_some hresult] at hbad ⊢
    rw [hf a _ _ hbad, hstay]

theorem steady_rename {r : Path} : Steady (· = true) r (rename p q) := by
  intro os t hbad
  cases os with
  | nil => rfl
  | cons o os => exact congrArg (fun t' : FileTree => t'.node r) (serveWith_rename (hbad _ rfl))

theorem steady_ite {m : Fs Bool} {a : α} {g : Fs α} (hm : Steady (· = true) q m) (ha : ok a)
    (hg : g.Always (Touching (· ≠ q))) :
    Steady ok q (m >>= fun b => if b = true then pure a else g) := by
  intro os t hbad
  cases hresult : (live m os t).result with
  | none =>
    rw [live_bind_of_none hresult]
    exact hm os t fun b hb => by simp [hresult] at hb
  | some b =>
    rw [live_bind_of_some hresult] at hbad ⊢
    cases b with
    | true => exact absurd ha (hbad a rfl)
    | false =>
      have hstay : (live m os t).state.node q = t.node q :=
        hm os t fun b hb => by rw [hresult] at hb; cases hb; exact Bool.false_ne_true
      rw [← hstay]
      exact node_live hg fun hne => hne rfl

theorem steady_renameIf {r : Path} {b : Bool} : Steady (· = true) r (renameIf b p q) := by
  cases b with
  | false => exact steady_of_always (always_pure _)
  | true => exact steady_rename

theorem steady_saveStream (hq : dest.withExt partExt ≠ q) :
    Steady (fun r => r.isSome = true) q (saveStream sha256 dest src) := by
  have hopen : (openFile (dest.withExt partExt) true).Always (Touching (· ≠ q)) :=
    always_perform.mpr fun _ h => h ▸ hq
  have hclose : (close (dest.withExt partExt)).Always (Touching (· ≠ q)) :=
    always_perform.mpr fun _ h => h.elim
  have hremove : (remove (dest.withExt partExt)).Always (Touching (· ≠ q)) :=
    always_perform.mpr fun _ h => h ▸ hq
  apply steady_bind hopen
  intro opened
  split_ifs
  · apply steady_bind (always_copyChunks (S := (· ≠ q)) hq src 0 0)
    intro copied
    apply steady_bind hclose
    intro closed
    exact steady_ite steady_renameIf rfl (always_bind hremove fun _ => always_pure _)
  · exact steady_of_always (always_pure _)

theorem steady_finalizePart {r : Path} :
    Steady (fun r => r.isSome = true) r (finalizePart sha256 p q) := by
  have hread : (readFile p).Always (Touching (· ≠ r)) := always_perform.mpr fun _ h => h.elim
  apply steady_bind hread
  intro staged
  cases staged with
  | none => exact steady_of_always (always_pure _)
  | some staged => exact steady_ite steady_rename rfl (always_pure _)

end WinDep.Fs
