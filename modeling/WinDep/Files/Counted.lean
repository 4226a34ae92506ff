/-
# The bytes a chunk counts

An upload is resumed where the count of the last chunk says. The copying loop
counts a piece once its write and its flush have returned, so a write that is
broken off after some bytes and a flush that fails leave bytes in the staging file
that are not counted. Only the first call of the loop that goes wrong matters: the
loop ends there, and where it is another call, the count is what the file grew by.
-/

import WinDep.Files.Crash

namespace WinDep.Fs

open Admin FileTree Program Function

/-! ## The calls of the loop -/

inductive LoopCall
  | write (b : Bytes)
  /-- the periodic flush -/
  | flush
  deriving DecidableEq

/-- The calls that write a piece, where none fails. -/
def pieceCalls (b : Bytes) (pending : ℕ) : List LoopCall :=
  if b = [] then []
  else if pending + b.length < syncEvery then [.write b] else [.write b, .flush]

/-- The calls of the copying loop, without the flush at the end of the stream. -/
def loopCalls : Stream → ℕ → List LoopCall
  | [], _ => []
  | r :: rs, pending =>
    pieceCalls r.data pending ++
      if r.ending = .more then loopCalls rs (pendingAfter r.data pending) else []

/-- The first call that goes wrong, and how. -/
def firstFault : List LoopCall → List Outcome → Option (LoopCall × Outcome)
  | c :: cs, o :: os => if o = .done then firstFault cs os else some (c, o)
  | _, _ => none

/-- A failure that leaves bytes in the file which the loop does not count. -/
def Strands : LoopCall × Outcome → Prop
  | (.write _, .broken k) => 0 < k
  | (.write _, _) => False
  | (.flush, _) => True

instance : (f : LoopCall × Outcome) → Decidable (Strands f)
  | (.write _, .broken k) => inferInstanceAs (Decidable (0 < k))
  | (.write _, .done) => isFalse id
  | (.write _, .refused) => isFalse id
  | (.flush, _) => isTrue trivial

/-- The first failure of the loop, if there is one, leaves nothing that is not counted. -/
def CountsAll (src : Stream) (pending : ℕ) (os : List Outcome) : Prop :=
  ∀ f ∈ firstFault (loopCalls src pending) os, ¬ Strands f

instance (src : Stream) (pending : ℕ) (os : List Outcome) : Decidable (CountsAll src pending os) :=
  inferInstanceAs (Decidable (∀ f ∈ firstFault (loopCalls src pending) os, ¬ Strands f))

variable {t : FileTree} {p dest : Path} {b c : Bytes} {src : Stream} {sha256 : Bytes → Digest}
  {os os' : List Outcome} {cs ds : List LoopCall} {f : LoopCall × Outcome}
  {pending total limit n : ℕ} {ok : Bool}

theorem firstFault_append (h : firstFault cs os = some f) : firstFault (cs ++ ds) os = some f := by
  induction cs generalizing os with
  | nil => simp [firstFault] at h
  | cons c cs ih =>
    cases os with
    | nil => simp [firstFault] at h
    | cons o os =>
      rw [List.cons_append]
      simp only [firstFault] at h ⊢
      split_ifs at h ⊢
      · exact ih h
      · exact h

theorem firstFault_done :
    firstFault (cs ++ ds) (List.replicate cs.length .done ++ os) = firstFault ds os := by
  induction cs with
  | nil => rfl
  | cons c cs ih =>
    rw [List.length_cons, List.replicate_succ, List.cons_append, List.cons_append]
    simpa only [firstFault, if_true] using ih

/-! ## One piece -/

theorem live_bind_eq_some {α β : Type} {m : Fs α} {f : α → Fs β} {b : β}
    (h : (live (m >>= f) os t).result = some b) : ∃ a, (live m os t).result = some a ∧
      (live (f a) (live m os t).outcomes (live m os t).state).result = some b :=
  result_bind_eq_some h

/-- What a process leaves of a call on a file: the call goes well or it does not. -/
theorem live_write {w : Bool} (h : t.node p = some (.file c))
    (hw : (live (write p b) os t).result = some w) :
    ∃ o stored, os = o :: (live (write p b) os t).outcomes ∧ (w = true ↔ o = .done) ∧
      (live (write p b) os t).state.node p = some (.file (c ++ stored)) ∧
      (o = .done → stored = b) ∧ (o ≠ .done → b ≠ [] → (Strands (.write b, o) ↔ stored ≠ [])) := by
  have happend (b' : Bytes) : (exec (write p b') t).1 = true ∧
      (exec (write p b') t).2.node p = some (.file (c ++ b')) := by
    rw [exec_write (content_eq_some.mpr h)]
    obtain ⟨hput, hnode⟩ := putFile_of_file h (b := c ++ b')
    exact ⟨hput, by rw [hnode, update_self]⟩
  rcases os with _ | ⟨o, os⟩
  · simp [live, write] at hw
  cases o with
  | done =>
    have hw : (exec (write p b) t).1 = w := Option.some.inj hw
    rw [(happend b).1] at hw
    exact ⟨.done, b, rfl, by simp [← hw], (happend b).2, fun _ => rfl, fun h => absurd rfl h⟩
  | refused =>
    obtain rfl : false = w := Option.some.inj hw
    exact ⟨.refused, [], rfl, by simp, by rw [List.append_nil]; exact h, by simp, by simp [Strands]⟩
  | broken k =>
    obtain rfl : false = w := Option.some.inj hw
    refine ⟨.broken k, b.take k, rfl, by simp, (happend (b.take k)).2, by simp, fun _ hb => ?_⟩
    rw [Strands, ne_eq, List.take_eq_nil_iff, not_or]
    exact ⟨fun hk => ⟨by omega, hb⟩, fun hk => by omega⟩

theorem live_sync {w : Bool} (hw : (live (sync p) os t).result = some w) :
    ∃ o, os = o :: (live (sync p) os t).outcomes ∧ (w = true ↔ o = .done) ∧
      (live (sync p) os t).state = t := by
  rcases os with _ | ⟨o, os⟩
  · simp [live, sync] at hw
  cases o with
  | done =>
    obtain rfl : true = w := Option.some.inj hw
    exact ⟨.done, rfl, by simp, rfl⟩
  | refused =>
    obtain rfl : false = w := Option.some.inj hw
    exact ⟨.refused, rfl, by simp, rfl⟩
  | broken k =>
    obtain rfl : false = w := Option.some.inj hw
    exact ⟨.broken k, rfl, by simp, rfl⟩

/-- A piece is written and every call went well, or the first that did not decides whether bytes
were left. -/
theorem live_writeData {w : Option ℕ} (h : t.node p = some (.file c))
    (hw : (live (writeData p b pending) os t).result = some w) :
    ∃ stored, (live (writeData p b pending) os t).state.node p = some (.file (c ++ stored)) ∧
      (w = some (pendingAfter b pending) ∧ stored = b ∧
          os = List.replicate (pieceCalls b pending).length .done ++
            (live (writeData p b pending) os t).outcomes ∨
        w = none ∧ ∃ f, firstFault (pieceCalls b pending) os = some f ∧
          (Strands f ↔ stored ≠ [])) := by
  by_cases hb : b = []
  · subst hb
    obtain rfl : some pending = w := Option.some.inj hw
    exact ⟨[], by rw [List.append_nil]; exact h, .inl ⟨rfl, rfl, rfl⟩⟩
  have hdata : writeData p b pending = writeChunk p b pending := if_neg hb
  rw [hdata] at hw ⊢
  obtain ⟨written, hwritten, hrest⟩ := live_bind_eq_some hw
  obtain ⟨o, stored, hos, hdone, hstored, hall, hstrands⟩ := live_write h hwritten
  rw [writeChunk, live_bind_of_some hwritten]
  set left := live (write p b) os t
  cases written with
  | false =>
    have ho : o ≠ .done := by simpa using hdone
    obtain rfl : none = w := Option.some.inj hrest
    refine ⟨stored, hstored, .inr ⟨rfl, (.write b, o), ?_, hstrands ho hb⟩⟩
    rw [hos, pieceCalls, if_neg hb]
    split_ifs <;> simp [firstFault, ho]
  | true =>
    obtain rfl := hdone.mp rfl
    obtain rfl := hall rfl
    simp only [if_true] at hrest ⊢
    by_cases hlt : pending + stored.length < syncEvery
    · rw [if_pos hlt] at hrest ⊢
      refine ⟨stored, hstored, .inl ⟨?_, rfl, ?_⟩⟩
      · rw [← Option.some.inj hrest, pendingAfter, if_neg hb, if_pos hlt]
      · rw [pieceCalls, if_neg hb, if_pos hlt]
        exact hos
    · rw [if_neg hlt] at hrest ⊢
      obtain ⟨synced, hsynced, hlast⟩ := live_bind_eq_some hrest
      obtain ⟨o', hos', hdone', hsame⟩ := live_sync hsynced
      have hkept : (live (sync p) left.outcomes left.state).state.node p =
          some (.file (c ++ stored)) := by rw [hsame, hstored]
      rw [live_bind_of_some hsynced]
      cases synced with
      | true =>
        obtain rfl := hdone'.mp rfl
        refine ⟨stored, hkept, .inl ⟨?_, rfl, ?_⟩⟩
        · rw [← Option.some.inj hlast, pendingAfter, if_neg hb, if_neg hlt]
        · rw [pieceCalls, if_neg hb, if_neg hlt]
          exact hos.trans (congrArg (Outcome.done :: ·) hos')
      | false =>
        have ho' : o' ≠ .done := by simpa using hdone'
        obtain rfl : none = w := Option.some.inj hlast
        refine ⟨stored, hkept, .inr ⟨rfl, (.flush, o'), ?_, ?_⟩⟩
        · rw [hos, hos', pieceCalls, if_neg hb, if_neg hlt]
          simp [firstFault, ho']
        · exact iff_of_true trivial hb

/-! ## Whole copies -/

/-- A last call that changes nothing, whatever its outcome. -/
theorem live_still {α : Type} {c : FsCall} {g : c.Answer → α} {a : α}
    (hc : ∀ o, (serveWith o c t).2 = t)
    (h : (live (perform c >>= fun r => pure (g r)) os t).result = some a) :
    (∃ r, g r = a) ∧ (live (perform c >>= fun r => pure (g r)) os t).state = t := by
  cases os with
  | nil => cases h
  | cons o os => exact ⟨⟨_, Option.some.inj h⟩, hc o⟩

theorem serveWith_sync (o : Outcome) : (serveWith o (.sync p) t).2 = t := by cases o <;> rfl

theorem serveWith_close (o : Outcome) : (serveWith o (.close p) t).2 = t := by cases o <;> rfl

/-- A copy counts no more than it stored, and as much unless its first failure strands bytes. -/
theorem live_copyChunks (src : Stream) (h : t.node p = some (.file c))
    (hn : (live (copyChunks p src pending total) os t).result = some (n, ok)) :
    ∃ stored, (live (copyChunks p src pending total) os t).state.node p =
        some (.file (c ++ stored)) ∧ n ≤ total + stored.length ∧
      (n = total + stored.length ↔ CountsAll src pending os) := by
  induction src generalizing t c pending total os with
  | nil =>
    obtain ⟨⟨synced, hsynced⟩, hsame⟩ := live_still serveWith_sync hn
    obtain ⟨rfl, -⟩ := Prod.mk.inj hsynced
    refine ⟨[], ?_, le_rfl, iff_of_true rfl (by simp [CountsAll, loopCalls, firstFault])⟩
    rw [List.append_nil, ← h]
    exact congrArg (fun t : FileTree => t.node p) hsame
  | cons r rs ih =>
    rw [copyChunks] at hn ⊢
    obtain ⟨w, hw, hrest⟩ := live_bind_eq_some hn
    obtain ⟨stored, hstored, ⟨rfl, rfl, hos⟩ | ⟨rfl, f, hfault, hstrands⟩⟩ := live_writeData h hw
    · rw [live_bind_of_some hw]
      have hskip (ds : List LoopCall) : firstFault (pieceCalls r.data pending ++ ds) os =
          firstFault ds (live (writeData p r.data pending) os t).outcomes :=
        (congrArg (firstFault _) hos).trans firstFault_done
      have hcounts : CountsAll (r :: rs) pending os ↔
          (r.ending = .more → CountsAll rs (pendingAfter r.data pending)
            (live (writeData p r.data pending) os t).outcomes) := by
        rw [CountsAll, loopCalls, hskip]
        split_ifs with hmore
        · exact ⟨fun h _ => h, fun h => h hmore⟩
        · simp [hmore, firstFault]
      cases hend : r.ending with
      | eof =>
        simp only [hend] at hrest ⊢
        obtain ⟨⟨synced, hsynced⟩, hsame⟩ := live_still serveWith_sync hrest
        obtain ⟨rfl, -⟩ := Prod.mk.inj hsynced
        refine ⟨r.data, ?_, le_rfl, iff_of_true rfl (hcounts.mpr (by simp [hend]))⟩
        rw [← hstored]
        exact congrArg (fun t : FileTree => t.node p) hsame
      | failed =>
        simp only [hend] at hrest ⊢
        obtain ⟨rfl, -⟩ := Prod.mk.inj (Option.some.inj hrest)
        exact ⟨r.data, hstored, le_rfl, iff_of_true rfl (hcounts.mpr (by simp [hend]))⟩
      | more =>
        simp only [hend] at hrest ⊢
        obtain ⟨tail, htail, hle, hiff⟩ := ih hstored hrest
        refine ⟨r.data ++ tail, by rw [htail, List.append_assoc], ?_, ?_⟩
        · rw [List.length_append]
          omega
        · rw [List.length_append, ← Nat.add_assoc, hiff, hcounts]
          simp [hend]
    · -- the loop ends at the failure, and the piece is not counted
      rw [live_bind_of_some hw]
      obtain ⟨rfl, -⟩ := Prod.mk.inj (Option.some.inj hrest)
      refine ⟨stored, hstored, Nat.le_add_right _ _, ?_⟩
      rw [CountsAll, loopCalls, firstFault_append hfault]
      simp [hstrands]

/-! ## Appending -/

/-- The size of a file; what is no file has none. -/
def size (t : FileTree) (p : Path) : ℕ := ((t.content p).getD []).length

/-- The loop of an append counts all, if the file is opened at all. -/
def OpenedCounts (src : Stream) : List Outcome → Prop
  | .done :: os => CountsAll src 0 os
  | _ => True

instance (src : Stream) : (os : List Outcome) → Decidable (OpenedCounts src os)
  | .done :: os => inferInstanceAs (Decidable (CountsAll src 0 os))
  | [] => isTrue trivial
  | .refused :: _ => isTrue trivial
  | .broken _ :: _ => isTrue trivial

/-- The condition under which an append counts what it stored. -/
def AppendCounts (t : FileTree) (p : Path) (src : Stream) (os : List Outcome) : Prop :=
  t.HasParent p ∧ t.node p ≠ some .folder → OpenedCounts src os

theorem putFile_snd (h : ¬ (t.putFile p b).1 = true) : (t.putFile p b).2 = t := by
  rw [putFile_fst] at h
  rw [FileTree.putFile, dif_neg h]

/-- An append counts no more than it stored, and as much under the condition. -/
theorem live_appendStream
    (hn : (live (appendStream p src limit) os t).result = some (n, ok)) :
    ∃ stored, ((live (appendStream p src limit) os t).state.content p).getD [] =
        (t.content p).getD [] ++ stored ∧ n ≤ stored.length ∧
      (n = stored.length ↔ AppendCounts t p (src.limit limit) os) := by
  rw [appendStream] at hn ⊢
  obtain ⟨opened, hopened, hrest⟩ := live_bind_eq_some hn
  rw [live_bind_of_some hopened]
  rcases os with _ | ⟨_ | _ | k, os⟩
  · simp [openFile] at hopened
  · obtain ⟨content, hcontent⟩ : ∃ content, content = (t.content p).getD [] := ⟨_, rfl⟩
    have hopen : live (openFile p false) (.done :: os) t =
        ⟨some (t.putFile p content).1, os, (t.putFile p content).2⟩ := by rw [hcontent]; rfl
    rw [hopen] at hopened hrest ⊢
    obtain rfl := Option.some.inj hopened
    rw [← hcontent]
    by_cases hput : (t.putFile p content).1 = true
    · have hfile : (t.putFile p content).2.node p = some (.file content) := by
        rw [node_putFile, if_pos ⟨rfl, hput⟩]
      rw [if_pos hput] at hrest ⊢
      obtain ⟨⟨n', ok'⟩, hcopied, hclosed⟩ := live_bind_eq_some hrest
      rw [live_bind_of_some hcopied]
      obtain ⟨stored, hstored, hle, hiff⟩ := live_copyChunks _ hfile hcopied
      obtain ⟨⟨closed, hresult⟩, hsame⟩ := live_still serveWith_close hclosed
      obtain ⟨rfl, -⟩ := Prod.mk.inj hresult
      refine ⟨stored, ?_, by simpa using hle, ?_⟩
      · have hnode := congrArg (fun t : FileTree => t.content p) hsame
        exact congrArg (·.getD []) (hnode.trans (content_eq_some.mpr hstored))
      · rw [Nat.zero_add] at hiff
        rw [hiff]
        exact ⟨fun h _ => h, fun h => h (putFile_fst.mp hput)⟩
    · rw [if_neg hput] at hrest ⊢
      obtain ⟨rfl, -⟩ := Prod.mk.inj (Option.some.inj hrest)
      refine ⟨[], ?_, le_rfl, iff_of_true rfl fun hopens => absurd (putFile_fst.mpr hopens) hput⟩
      rw [List.append_nil]
      have hnode := congrArg (fun t : FileTree => (t.content p).getD []) (putFile_snd hput)
      exact hnode.trans hcontent.symm
  · obtain rfl : false = opened := Option.some.inj hopened
    obtain ⟨rfl, -⟩ := Prod.mk.inj (Option.some.inj hrest)
    exact ⟨[], (List.append_nil _).symm, le_rfl, iff_of_true rfl fun _ => trivial⟩
  · obtain rfl : false = opened := Option.some.inj hopened
    obtain ⟨rfl, -⟩ := Prod.mk.inj (Option.some.inj hrest)
    exact ⟨[], (List.append_nil _).symm, le_rfl, iff_of_true rfl fun _ => trivial⟩

/-! ## Resuming -/

/-- The size of what is staged after a request, which has been published if it is answered with
success. -/
def stagedSize (t : FileTree) (dest : Path) (reply : Reply) : ℕ :=
  size t (if reply.status = 200 then dest else dest.withExt partExt)

/-- The condition under which a chunk reports what is staged. A size that cannot be read is taken
for that of an absent file. -/
def ResumeCounts (t : FileTree) (dest : Path) (src : Stream) : List Outcome → Prop
  | .done :: o :: os => (o = .done ∨ staged t dest = []) ∧
      (t.node (dest.withExt partExt) ≠ some .folder → OpenedCounts src os)
  | _ => True

variable {r : FileRequest} {reply : Reply} {offset k : ℕ} {sum : Digest}

theorem live_mkdirAll_true (hne : dest ≠ [])
    (h : (live (mkdirAll dest.dropLast) os t).result = some true) :
    ∃ os₁ t₁, os = .done :: os₁ ∧ Made t dest t₁ ∧
      live (mkdirAll dest.dropLast) os t = ⟨some true, os₁, t₁⟩ := by
  rcases os with _ | ⟨_ | _ | k, os⟩
  · simp [mkdirAll] at h
  · rcases exec_mkdirAll_cases dest.dropLast t with ⟨-, hmade⟩ | ⟨t₁, hmade, -, hnode⟩
    · have hfalse : (exec (mkdirAll dest.dropLast) t).1 = true := Option.some.inj h
      rw [hmade] at hfalse
      cases hfalse
    · obtain ⟨hparent, hfile, hext⟩ := folders_made hne hnode
      refine ⟨os, t₁, rfl, ⟨hparent, hfile, hext⟩, ?_⟩
      have hlive : live (mkdirAll dest.dropLast) (.done :: os) t =
          ⟨some (exec (mkdirAll dest.dropLast) t).1, os, (exec (mkdirAll dest.dropLast) t).2⟩ := rfl
      rw [hlive, hmade]
  · cases h
  · cases h

/-- What is finalized is what was staged. -/
theorem live_finalizePart
    (h : (live (finalizePart sha256 (dest.withExt partExt) dest) os t).result = some (some sum)) :
    (live (finalizePart sha256 (dest.withExt partExt) dest) os t).state.content dest =
      t.content (dest.withExt partExt) := by
  set m := finalizePart sha256 (dest.withExt partExt) dest with hm
  obtain ⟨os', -, hrun, hlive⟩ := strict_finalizePart.play_eq h rfl
  have hrun : some sum = (exec m t).1 := hrun
  have hstate : (live m os t).state = (exec m t).2 := congrArg Left.state hlive
  rw [hstate]
  cases hcontent : t.content (dest.withExt partExt) with
  | none => simp [hm, finalizePart, hcontent] at hrun
  | some b =>
    by_cases hput : (t.putFile dest b).1 = true
    · obtain ⟨hparent, hdest⟩ := putFile_fst.mp hput
      obtain ⟨-, hnode, -⟩ :=
        exec_finalizePart sha256 hparent (content_eq_some.mp hcontent) hdest
      rw [content, hnode, update_of_ne part_ne.symm, update_self]
      rfl
    · have hrename : exec (rename (dest.withExt partExt) dest) t = (false, t) := by
        change serve (.rename _ _) t = _
        simp only [serve, hcontent, if_neg part_ne, if_neg hput]
      simp [hm, finalizePart, hcontent, hrename] at hrun

/-- What is staged when the size is read, and the size that is read. -/
theorem live_stat {w : StatResult}
    (hw : (live (stat (dest.withExt partExt)) os t).result = some w) :
    ∃ o os', os = o :: os' ∧ live (stat (dest.withExt partExt)) os t = ⟨some w, os', t⟩ ∧
      StatResult.size w = if o = .done then (staged t dest).length else 0 := by
  rcases os with _ | ⟨_ | _ | k, os⟩
  · simp [stat] at hw
  · obtain rfl : t.statResult (dest.withExt partExt) = w := Option.some.inj hw
    exact ⟨.done, os, rfl, rfl, by rw [if_pos rfl, size_statResult]⟩
  · obtain rfl : StatResult.failed = w := Option.some.inj hw
    exact ⟨.refused, os, rfl, rfl, by simp [StatResult.size]⟩
  · obtain rfl : StatResult.failed = w := Option.some.inj hw
    exact ⟨.broken k, os, rfl, rfl, by simp [StatResult.size]⟩

/-- The reply of a chunk whose offset was checked reports the count. -/
theorem live_appendAndFinish
    (h : (live (appendAndFinish sha256 dest src offset total) os t).result = some reply) :
    ∃ n ok, (live (appendStream (dest.withExt partExt) src (total - offset)) os t).result =
        some (n, ok) ∧ reply.offset = some (offset + n) ∧
      stagedSize (live (appendAndFinish sha256 dest src offset total) os t).state dest reply =
        size (live (appendStream (dest.withExt partExt) src (total - offset)) os t).state
          (dest.withExt partExt) := by
  rw [appendAndFinish] at h ⊢
  obtain ⟨⟨n, ok⟩, happend, hrest⟩ := live_bind_eq_some h
  refine ⟨n, ok, happend, ?_⟩
  rw [live_bind_of_some happend]
  set left := live (appendStream (dest.withExt partExt) src (total - offset)) os t
  cases ok with
  | false =>
    obtain rfl := Option.some.inj hrest
    exact ⟨rfl, rfl⟩
  | true =>
    simp only [if_true] at hrest ⊢
    by_cases hless : offset + n < total
    · rw [if_pos hless] at hrest ⊢
      obtain rfl := Option.some.inj hrest
      exact ⟨rfl, rfl⟩
    · rw [if_neg hless] at hrest ⊢
      rw [finishUpload] at hrest ⊢
      obtain ⟨sum, hsum, hlast⟩ := live_bind_eq_some hrest
      rw [live_bind_of_some hsum]
      cases sum with
      | none =>
        obtain rfl := Option.some.inj hlast
        have hkept := steady_finalizePart (r := dest.withExt partExt) left.outcomes left.state
          fun res hres => by
            obtain rfl : none = res := Option.some.inj (hsum.symm.trans hres)
            simp
        refine ⟨rfl, ?_⟩
        exact congrArg (fun found => ((contentOf found).getD []).length) hkept
      | some sum =>
        obtain ⟨recorded, hrecorded, hreply⟩ := live_bind_eq_some hlast
        obtain rfl := Option.some.inj hreply
        set published := live (finalizePart sha256 (dest.withExt partExt) dest) left.outcomes
          left.state
        have hkept : (live (writeSidecar dest sum) published.outcomes published.state).state.node
            dest = published.state.node dest :=
          node_live (always_writeSidecar (S := (· ≠ dest)) sidecar_ne) fun hne => hne rfl
        refine ⟨rfl, ?_⟩
        dsimp only
        rw [live_bind_of_some hrecorded, stagedSize, if_pos rfl, size, size,
          ← live_finalizePart hsum]
        exact congrArg (fun found => ((contentOf found).getD []).length) hkept

/-- **What is counted.** An append counts the bytes by which the file grew, and a chunk reports the
size of what is staged, exactly where the first call of the loop that goes wrong strands none, and
the size that was staged before was read. -/
theorem counted_iff (sha256 : Bytes → Digest) (os : List Outcome) (t : FileTree) :
    (∀ p src limit n ok, (live (appendStream p src limit) os t).result = some (n, ok) →
      (size (live (appendStream p src limit) os t).state p = size t p + n ↔
        AppendCounts t p (src.limit limit) os)) ∧
    ∀ r dest offset total reply k, parseResume r = .ok (dest, offset, total) →
      (live (handleUploadResume sha256 r) os t).result = some reply →
      reply.status ∈ [200, 204, 500] → reply.offset = some k →
        (stagedSize (live (handleUploadResume sha256 r) os t).state dest reply = k ↔
          ResumeCounts t dest (r.body.limit (total - offset)) os) := by
  constructor
  · intro p src limit n ok hn
    obtain ⟨stored, hstored, -, hiff⟩ := live_appendStream hn
    rw [size, hstored, List.length_append, ← hiff, size]
    omega
  · intro r dest offset total reply k hparse hreply hstatus hk
    have hne : dest ≠ [] :=
      ne_nil_of_resolvePath (resolvePath_of_targetPath (targetPath_of_parseResume hparse))
    rw [handleUploadResume, hparse] at hreply ⊢
    obtain ⟨made, hmade, hrest⟩ := live_bind_eq_some hreply
    rw [live_bind_of_some hmade]
    cases made with
    | false =>
      obtain rfl := Option.some.inj hrest
      cases hk
    | true =>
      obtain ⟨os₁, t₁, rfl, hfolders, hlive⟩ := live_mkdirAll_true hne hmade
      rw [hlive] at hrest ⊢
      simp only [if_true] at hrest ⊢
      obtain ⟨w, hw, hnext⟩ := live_bind_eq_some hrest
      obtain ⟨o, os₂, rfl, hstat, hsize⟩ := live_stat hw
      rw [live_bind_of_some hw]
      rw [hstat] at hnext ⊢
      by_cases hoffset : offset ≠ StatResult.size w
      · -- the offsets differ, which is answered with 409
        rw [if_pos hoffset] at hnext
        obtain rfl := Option.some.inj hnext
        simp [Reply.error] at hstatus
      rw [if_neg hoffset] at hnext ⊢
      obtain rfl := not_not.mp hoffset
      obtain ⟨n, ok, happend, hcount, hstaged⟩ := live_appendAndFinish hnext
      obtain rfl : StatResult.size w + n = k := Option.some.inj (hcount.symm.trans hk)
      obtain ⟨stored, hstored, hle, hiff⟩ := live_appendStream happend
      have hopens : AppendCounts t₁ (dest.withExt partExt)
          (r.body.limit (total - StatResult.size w)) os₂ ↔
            (t.node (dest.withExt partExt) ≠ some .folder →
              OpenedCounts (r.body.limit (total - StatResult.size w)) os₂) := by
        rw [AppendCounts, hfolders.companion,
          and_iff_right (hasParent_withExt hfolders.parent)]
      have hbefore : (t₁.content (dest.withExt partExt)).getD [] = staged t dest := hfolders.staged
      change stagedSize (live (appendAndFinish sha256 dest r.body (StatResult.size w) total) os₂
        t₁).state dest reply = _ ↔ _
      rw [hstaged, size, hstored, hbefore, List.length_append, ResumeCounts, ← hopens, ← hiff,
        ← List.length_eq_zero_iff]
      rw [hfolders.staged] at hsize
      by_cases ho : o = .done
      · rw [if_pos ho] at hsize
        simp only [ho, true_or, true_and]
        omega
      · rw [if_neg ho] at hsize
        simp only [ho, false_or]
        omega

/-- Two bytes in two pieces. -/
def refusedChunk : FileRequest := ⟨"images", "a.wim", ['2'], ['0'], [⟨[1], .more⟩, ⟨[2], .more⟩]⟩

/-- The second write is refused: one byte is staged and reported. -/
theorem counted_refused :
    size (live (appendStream ["a.part"] refusedChunk.body 2) [.done, .done, .refused, .done]
      FileTree.empty).state ["a.part"] = 1 ∧
    stagedSize (live (handleUploadResume lengthDigest refusedChunk)
      [.done, .done, .done, .done, .refused, .done] FileTree.empty).state ["images", "a.wim"]
      ⟨500, "write failed", some 1, none⟩ = 1 := by
  obtain ⟨happend, -⟩ := counted_iff lengthDigest [.done, .done, .refused, .done] FileTree.empty
  obtain ⟨-, hresume⟩ := counted_iff lengthDigest [.done, .done, .done, .done, .refused, .done]
    FileTree.empty
  exact ⟨(happend _ refusedChunk.body 2 1 false (by decide)).mpr fun _ => by decide,
    (hresume refusedChunk _ 0 2 _ 1 rfl (by decide) (by decide) rfl).mpr
      ⟨Or.inl rfl, fun _ => by decide⟩⟩

/-- Two bytes in one piece. -/
def brokenChunk : FileRequest := ⟨"images", "a.wim", ['2'], ['0'], [⟨[1, 2], .more⟩]⟩

/-- The disk is full after the first byte, which is staged, and an offset of zero is reported. -/
theorem not_counted_broken :
    (¬ ∀ os t p src limit n ok, (live (appendStream p src limit) os t).result = some (n, ok) →
      size (live (appendStream p src limit) os t).state p = size t p + n) ∧
    ¬ ∀ (sha256 : Bytes → Digest) os t r dest offset total reply k,
      parseResume r = .ok (dest, offset, total) →
      (live (handleUploadResume sha256 r) os t).result = some reply →
      reply.status ∈ [200, 204, 500] → reply.offset = some k →
        stagedSize (live (handleUploadResume sha256 r) os t).state dest reply = k := by
  constructor
  · intro h
    have hsize := h [.done, .broken 1, .done] FileTree.empty ["a.part"] brokenChunk.body 2 0 false
      (by decide)
    exact absurd hsize (by decide)
  · intro h
    have hsize := h lengthDigest [.done, .done, .done, .broken 1, .done] FileTree.empty brokenChunk
      ["images", "a.wim"] 0 2 ⟨500, "write failed", some 0, none⟩ 0 rfl (by decide) (by decide) rfl
    exact absurd hsize (by decide)

end WinDep.Fs
