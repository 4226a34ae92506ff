/-
# Dirty pages

The copying loop counts what it has written since it last flushed, and flushes
when that is enough. A meter beside the file tree counts it too, from how each
call went. The two agree between pieces, so that at any moment, under any
failures, what is not flushed is less than the threshold and one buffer.
-/

import WinDep.Data.Moments
import WinDep.Files.System
import WinDep.Files.Faulty

namespace WinDep.Fs

open Admin FileTree Program Function

/-- `len(buf)`, the most that one call of `Read` returns. -/
def bufferSize : ℕ := 4 * 2 ^ 20

/-- The bytes that a write stores, from how it went and what it was answered. -/
def stored (o : Outcome) (b : Bytes) (written : Bool) : ℕ :=
  if written then b.length
  else match o with
    | .broken k => (b.take k).length
    | _ => 0

/-- The bytes written since the last flush that succeeded, after a call. -/
def unsynced : Outcome → (c : FsCall) → c.Answer → ℕ → ℕ
  | o, .write _ b, written, k => k + stored o b written
  | _, .sync _, synced, k => if synced = true then 0 else k
  | _, _, _, k => k

/-- The tree with the meter. -/
abbrev gauge : Outcome → (c : FsCall) → FileTree × ℕ → c.Answer × FileTree × ℕ :=
  metered unsynced serveWith

/-- So many bytes are not flushed. -/
def Unflushed (bound : ℕ) (s : FileTree × ℕ) : Prop := s.2 < bound

variable {t : FileTree} {p dst : Path} {b c : Bytes} {src : Stream} {bound k pending total : ℕ}

theorem stored_le (o : Outcome) (b : Bytes) (written : Bool) : stored o b written ≤ b.length := by
  unfold stored
  split_ifs
  · exact le_rfl
  · cases o with
    | done => exact Nat.zero_le _
    | refused => exact Nat.zero_le _
    | broken k => exact List.length_take_le' k b

/-- A write adds at most its bytes, and all of them if it succeeds. -/
theorem throughout_write (h : k + b.length < bound) :
    Throughout gauge (Unflushed bound) (write p b) (t, k)
      fun written s => written = true → s.2 = k + b.length := by
  refine throughout_perform (show k < bound by omega) fun o => ?_
  have hmeter : (gauge o (.write p b) (t, k)).2.2 =
      k + stored o b (serveWith o (.write p b) t).1 := rfl
  have hle := stored_le o b (serveWith o (.write p b) t).1
  rw [Unflushed, hmeter]
  refine ⟨by omega, fun hwritten => ?_⟩
  have hanswer : (serveWith o (.write p b) t).1 = true := hwritten
  rw [hanswer]
  rfl

/-- A flush adds nothing, and leaves nothing if it succeeds. -/
theorem throughout_sync (h : k < bound) :
    Throughout gauge (Unflushed bound) (sync p) (t, k) fun synced s => synced = true → s.2 = 0 := by
  refine throughout_perform h fun o => ?_
  have hmeter : (gauge o (.sync p) (t, k)).2.2 =
      if (serveWith o (.sync p) t).1 = true then 0 else k := rfl
  rw [Unflushed, hmeter]
  split_ifs with hsynced
  · exact ⟨by omega, fun _ => rfl⟩
  · exact ⟨h, fun hanswer => absurd hanswer hsynced⟩

/-! ## The loop -/

/-- After a piece the loop knows what is not flushed, and that is less than the threshold. -/
theorem throughout_writeData (h : pending < syncEvery) (hb : b.length ≤ bufferSize) :
    Throughout gauge (Unflushed (syncEvery + bufferSize)) (writeData p b pending) (t, pending)
      fun w s => ∀ pending', w = some pending' → s.2 = pending' ∧ pending' < syncEvery := by
  have hbound : pending + b.length < syncEvery + bufferSize := by omega
  unfold writeData
  split_ifs
  · refine throughout_pure (show pending < _ by omega) fun pending' hpending => ?_
    obtain rfl := Option.some.inj hpending
    exact ⟨rfl, h⟩
  apply throughout_bind (throughout_write hbound)
  rintro written ⟨t', k'⟩ hk' hall
  cases written with
  | false => exact throughout_pure hk' nofun
  | true =>
    obtain rfl : k' = pending + b.length := hall rfl
    simp only [if_true]
    split_ifs with hlt
    · refine throughout_pure hbound fun pending' hpending => ?_
      obtain rfl := Option.some.inj hpending
      exact ⟨rfl, hlt⟩
    · apply throughout_bind (throughout_sync hbound)
      rintro synced ⟨t'', k''⟩ hk'' hnone
      cases synced with
      | false => exact throughout_pure hk'' nofun
      | true =>
        obtain rfl : k'' = 0 := hnone rfl
        refine throughout_pure hk'' fun pending' hpending => ?_
        obtain rfl := Option.some.inj hpending
        exact ⟨rfl, by decide⟩

/-- A copy keeps the bound, and leaves nothing that is not flushed if it succeeds. -/
theorem throughout_copyChunks (src : Stream) (hsrc : ∀ r ∈ src, r.data.length ≤ bufferSize)
    (h : pending < syncEvery) (total : ℕ) (t : FileTree) :
    Throughout gauge (Unflushed (syncEvery + bufferSize)) (copyChunks p src pending total)
      (t, pending) fun res s => res.2 = true → s.2 = 0 := by
  have hlast (n k : ℕ) (t : FileTree) (hk : k < syncEvery) :
      Throughout gauge (Unflushed (syncEvery + bufferSize)) (do return (n, ← sync p)) (t, k)
        fun res s => res.2 = true → s.2 = 0 :=
    throughout_bind (throughout_sync (Nat.lt_add_right _ hk)) fun synced s hs hnone =>
      throughout_pure hs hnone
  induction src generalizing pending total t with
  | nil => exact hlast total pending t h
  | cons r rs ih =>
    rw [copyChunks]
    apply throughout_bind (throughout_writeData h (hsrc r List.mem_cons_self))
    rintro w ⟨t', k⟩ hk hpending
    cases w with
    | none => exact throughout_pure hk fun hok => absurd hok Bool.false_ne_true
    | some pending' =>
      obtain ⟨rfl, hlt⟩ : k = pending' ∧ pending' < syncEvery := hpending _ rfl
      cases hend : r.ending with
      | eof => exact hlast _ _ _ hlt
      | failed => exact throughout_pure hk fun hok => absurd hok Bool.false_ne_true
      | more => exact ih (fun r hr => hsrc r (List.mem_cons_of_mem _ hr)) hlt _ _

/-- **Dirty pages are bounded.** Where every call goes well, a copy appends the whole stream, counts
it and leaves nothing that is not flushed; and at every moment, whatever goes wrong, less than the
threshold and one buffer is not flushed. -/
theorem copyCountedSynced_unflushed (src : Stream)
    (hsrc : ∀ r ∈ src, r.data.length ≤ bufferSize) (dst : Path) (t : FileTree) :
    (∀ c, src.Ends → t.node dst = some (.file c) →
      ∃ t', (copyCountedSynced dst src).run (gauge .done) (t, 0) =
          ((src.bytes.length, true), t', 0) ∧
        t'.node = update t.node dst (some (.file (c ++ src.bytes)))) ∧
    ∀ os, ((copyCountedSynced dst src).play gauge os (t, 0)).state.2 < syncEvery + bufferSize := by
  have hcopy := throughout_copyChunks (p := dst) src hsrc (show 0 < syncEvery by decide) 0 t
  refine ⟨fun c hends hfile => ?_, fun os => (hcopy os).1⟩
  obtain ⟨hok, hnode⟩ := exec_copyChunks src hfile 0 0
  set m := copyChunks dst src 0 0
  obtain ⟨n, hn⟩ : ∃ n, (exec m t).1 = (n, true) :=
    ⟨_, Prod.ext rfl (hok.trans (decide_eq_true hends))⟩
  have hrun : (m.run treeSystem.serve t).1 = (n, true) := hn
  obtain ⟨-, hcount⟩ := run_copyChunks src hrun
  -- the meter runs beside the copy, which says itself that it ended well
  have hresult : (m.run (gauge .done) (t, 0)).1 = (n, true) := run_metered.1.trans hn
  have htree : (m.run (gauge .done) (t, 0)).2.1 = (exec m t).2 := run_metered.2
  have hflushed : (m.run (gauge .done) (t, 0)).2.2 = 0 := hcopy.run (congrArg Prod.snd hresult)
  rw [Nat.zero_add] at hcount
  exact ⟨(exec m t).2, Prod.ext (hcount ▸ hresult) (Prod.ext htree hflushed), hnode⟩

/-- Two bytes that come with the end of the stream. -/
theorem copyCountedSynced_unflushed_two : ∃ t' : FileTree,
    (copyCountedSynced ["a.part"] [⟨[1], .more⟩, ⟨[2], .eof⟩]).run (gauge .done)
      ((FileTree.empty.putFile ["a.part"] []).2, 0) = ((2, true), t', 0) ∧
      t'.node = update (FileTree.empty.putFile ["a.part"] []).2.node ["a.part"]
        (some (.file [1, 2])) :=
  (copyCountedSynced_unflushed [⟨[1], .more⟩, ⟨[2], .eof⟩] (by decide) ["a.part"]
    (FileTree.empty.putFile ["a.part"] []).2).1 [] (by decide) (by decide)

end WinDep.Fs
