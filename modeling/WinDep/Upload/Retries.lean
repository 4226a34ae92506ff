/-
# Retries

An upload survives what goes wrong on the way. Requests may be lost, cut short,
refused or handled without their answer arriving, and the server may fail any
call that it reports. As long as the client learns the offset before one of its
six attempts and that attempt goes through, the upload resolves and the file is
stored.
-/

import WinDep.Upload.Client

namespace WinDep.Upload

open Admin

/-! ## Attempts that go through -/

/-- No call of the server fails on a chunk. -/
structure Succeeds (faults : Faults) : Prop where
  mkdirAll : faults.mkdirAll = false
  openPart : faults.openPart = false
  write : ∀ i, faults.write i = none
  sync : ∀ i, faults.sync i = false
  closePart : faults.closePart = false
  hash : faults.hash = false
  rename : faults.rename = false

/-- The whole body arrives, the server handles it and its answer arrives. -/
def PatchOutcome.GoesThrough (o : PatchOutcome) : Prop :=
  ∃ faults body, o = .served faults body true ∧ Succeeds faults ∧
    ∀ b, (body.stream b).bytes = b ∧ (body.stream b).Ends

/-- The handler answers. -/
def HeadOutcome.Served (o : HeadOutcome) : Prop := ∃ faults, o = .served faults

/-- The `HEAD` before an attempt. -/
def Network.headBefore (net : Network) : ℕ → HeadOutcome
  | 0 => net.first
  | k + 1 => net.head k

/-- The client sends from where the staging file ends. -/
def Synced (offset : ℕ) (t : Target) : Prop := offset = (t.part.getD []).length

variable {base : String} {sha256 : Bytes → Digest} {F : Bytes} {t t' : Target} {s : State}
  {net : Network} {offset k n : ℕ} {r : Patched}

/-- From where the staging file ends, an attempt that goes through completes the upload. -/
theorem patch_goesThrough (base : String) (sha256 : Bytes → Digest) {o : PatchOutcome}
    (ho : o.GoesThrough)
    (hreports : ∀ faults body answered, o = .served faults body answered → ¬ Unreported faults)
    (hstaged : Staged F t) (hoffset : Synced offset t) :
    ∃ r t', patch base sha256 o F offset t = (some r, t') ∧ r.Ok ∧ r.complete = true := by
  obtain ⟨faults, body, rfl, hsucceeds, hwhole⟩ := ho
  have hstat : faults.statPart = false := by
    simpa using fun hstat => hreports faults body true rfl (Or.inr (Or.inl hstat))
  have hcur : offset = partSize faults t := by rw [partSize_eq hstat, hoffset]
  have hle : offset ≤ F.length := by
    rw [hoffset]
    cases hpart : t.part with
    | none => exact Nat.zero_le _
    | some p => exact (hstaged p hpart).length_le
  obtain ⟨hbytes, hends⟩ := hwhole (F.drop offset)
  have hall : (body.stream (F.drop offset)).bytes.take (F.length - offset) = F.drop offset := by
    rw [hbytes]
    exact List.take_of_length_le (by rw [List.length_drop])
  have hspec := resumeUpload_spec base faults sha256 offset F.length
    (body.stream (F.drop offset)) t
  simp only [patch]
  generalize (resumeUpload base faults sha256 offset F.length (body.stream (F.drop offset)) t).1 =
      reply, (resumeUpload base faults sha256 offset F.length
        (body.stream (F.drop offset)) t).2 = t' at hspec ⊢
  cases hspec with
  | refused h => simp [hsucceeds.mkdirAll] at h
  | mismatch h => exact absurd hcur h
  | failed _ hfault =>
    rw [appendStream_ok hsucceeds.openPart hsucceeds.closePart hsucceeds.write hsucceeds.sync
      (hends.limit _)] at hfault
    cases hfault
  | more _ hwritten hlt =>
    rw [hall] at hwritten
    rw [hwritten, List.length_drop] at hlt
    omega
  | unpublished _ hfault => simp [hsucceeds.hash, hsucceeds.rename] at hfault
  | published =>
    exact ⟨_, _, rfl, ⟨le_refl 200, show 200 < 300 by decide⟩, by simp⟩

/-- A chunk that is accepted without completing the upload answers where the staging file ends. -/
theorem patch_synced {o : PatchOutcome}
    (hreports : ∀ faults body answered, o = .served faults body answered → ¬ Unreported faults)
    (hp : patch base sha256 o F offset t = (some r, t')) (hok : r.Ok)
    (hend : ¬ (r.complete = true ∨ F.length ≤ r.offset)) : Synced r.offset t' := by
  cases o with
  | lost => simp [patch] at hp
  | refused status hstatus =>
    obtain ⟨hr, -⟩ := Prod.mk.inj hp
    obtain rfl := Option.some.inj hr
    exact absurd hok.2 (by simpa using by omega)
  | served faults body answered =>
    have hstat : faults.statPart = false := by
      simpa using fun hstat => hreports faults body answered rfl (Or.inr (Or.inl hstat))
    have hspec := resumeUpload_spec base faults sha256 offset F.length
      (body.stream (F.drop offset)) t
    simp only [patch] at hp
    generalize (resumeUpload base faults sha256 offset F.length (body.stream (F.drop offset)) t).1 =
      reply, (resumeUpload base faults sha256 offset F.length
        (body.stream (F.drop offset)) t).2 = t'' at hspec hp
    obtain ⟨hr, rfl⟩ := Prod.mk.inj hp
    split_ifs at hr
    obtain rfl := Option.some.inj hr
    cases hspec with
    | refused | mismatch | failed | unpublished => simp [Patched.Ok, Reply.error] at hok
    | more hoffset =>
      rw [partSize_eq hstat] at hoffset
      simp [Synced, num, hoffset]
    | published => simp at hend

/-! ## The loop -/

/-- A `HEAD` that the handler answers brings the client to where the staging file ends. -/
theorem head_synced {o : HeadOutcome} (ho : o.Served)
    (hreports : ∀ faults, o = .served faults → ¬ Unreported faults) (hs : head o t = some s)
    (hc : s.complete = false) : Synced s.offset t := by
  obtain ⟨faults, rfl⟩ := ho
  have hstat : faults.statFile = false := by
    simpa using fun hstat => hreports faults rfl (Or.inl hstat)
  have hpart : faults.statPart = false := by
    simpa using fun hstat => hreports faults rfl (Or.inr (Or.inl hstat))
  obtain rfl := Option.some.inj hs
  cases hfile : t.file with
  | none => simp [uploadOffset, hfile, Synced, num, partSize_eq hpart]
  | some G => simp [uploadOffset, hfile, hstat] at hc

/-- What is sent from where the staging file ends belongs there. -/
theorem Ready.staged (h : Ready sha256 F offset t) (hsynced : Synced offset t) : Staged F t := by
  rcases h.2 with hstaged | ⟨-, rfl⟩
  · exact hstaged
  · -- an empty staging file
    intro p hp
    rw [Synced, hp, Option.getD_some] at hsynced
    rw [List.length_eq_zero_iff.mp hsynced.symm]
    exact List.nil_prefix

/-- The client learns the offset before attempt `k`, and that attempt goes through. -/
structure Network.Recovers (net : Network) (k : ℕ) : Prop where
  le : k < maxAttempts
  asks : ∀ j ≤ k, net.headBefore j ≠ .lost
  learns : (net.headBefore k).Served
  goesThrough : (net.patch k).GoesThrough

theorem head_isSome {o : HeadOutcome} (h : o ≠ .lost) (t : Target) : ∃ s, head o t = some s := by
  cases o with
  | lost => exact absurd rfl h
  | refused | served => exact ⟨_, rfl⟩

/-- The attempt that goes through ends the loop. -/
theorem attempts_goesThrough (hnet : net.Reports) (hk : net.Recovers k)
    (hi : maxAttempts - (n + 1) = k) (h : Ready sha256 F s.offset t)
    (hsynced : Synced s.offset t) : (attempts base sha256 net F (n + 1) s t).1 = true := by
  obtain ⟨r, t', hp, hok, hc⟩ := patch_goesThrough base sha256 hk.goesThrough (hnet.patch k)
    (h.staged hsynced) hsynced
  rw [← hi] at hp
  rw [attempts_done hp hok hc]

/-- Every attempt up to that one resolves the upload, or leaves the client ready for the next. -/
theorem attempts_resolves (hnet : net.Reports) (hk : net.Recovers k) (hn : n < maxAttempts)
    (hle : maxAttempts - (n + 1) ≤ k) (h : Ready sha256 F s.offset t)
    (hsynced : maxAttempts - (n + 1) = k → Synced s.offset t) :
    (attempts base sha256 net F (n + 1) s t).1 = true := by
  induction n generalizing s t with
  | zero =>
    have hlast : maxAttempts - (0 + 1) = k := hle.antisymm (Nat.le_pred_of_lt hk.le)
    exact attempts_goesThrough hnet hk hlast h (hsynced hlast)
  | succ n ih =>
    rcases hle.eq_or_lt with hi | hlt
    · exact attempts_goesThrough hnet hk hi h (hsynced hi)
    have hnext : maxAttempts - (n + 1) = maxAttempts - (n + 1 + 1) + 1 := by omega
    -- the next attempt, from a state that is synced if that attempt is to go through
    have hrest {s : State} {t : Target} (h : Ready sha256 F s.offset t)
        (hsynced : maxAttempts - (n + 1) = k → Synced s.offset t) :
        (attempts base sha256 net F (n + 1) s t).1 = true :=
      ih (by omega) (by omega) h hsynced
    obtain ⟨⟨res, t'⟩, hp⟩ : ∃ p, patch base sha256 (net.patch (maxAttempts - (n + 1 + 1))) F
      s.offset t = p := ⟨_, rfl⟩
    obtain ⟨hown, hok⟩ := patch_ready h (hnet.patch _) hp
    rw [attempts]
    simp only [hp]
    cases hfilter : res.filter fun r => r.Ok with
    | some r =>
      obtain ⟨hres, hr⟩ := Option.filter_eq_some_iff.mp hfilter
      have hr : r.Ok := by simpa using hr
      subst hres
      dsimp only
      by_cases hend : r.complete = true ∨ F.length ≤ r.offset
      · rw [if_pos hend]
      · rw [if_neg hend]
        exact hrest ⟨hown.1, Or.inl (hok r rfl hr).1⟩ fun _ =>
          patch_synced (hnet.patch _) hp hr hend
    | none =>
      dsimp only
      rw [if_neg (by simp)]
      -- the offset is asked for again
      obtain ⟨s', hs'⟩ := head_isSome (hk.asks (maxAttempts - (n + 1 + 1) + 1) (by omega)) t'
      have hhead : head (net.head (maxAttempts - (n + 1 + 1))) t' = some s' := hs'
      obtain ⟨-, hready⟩ := head_ready hown (hnet.head _) hhead
      rw [hhead]
      dsimp only
      cases hc : s'.complete with
      | true => rw [if_pos rfl]
      | false =>
        rw [if_neg Bool.false_ne_true]
        refine hrest (hready hc) fun hi => ?_
        have hserved : (net.head (maxAttempts - (n + 1 + 1))).Served := by
          have hlearns := hk.learns
          rw [← hi, hnext] at hlearns
          exact hlearns
        exact head_synced hserved (hnet.head _) hhead hc

/-- Where what the target holds is the client's own, an upload whose client learns the offset before
an attempt that goes through resolves. -/
theorem resumableUpload_resolves (hnet : net.Reports) (hk : net.Recovers k) (h : Own sha256 F t) :
    (resumableUpload base sha256 net F t).1 = true := by
  obtain ⟨s, hs⟩ := head_isSome (hk.asks 0 (Nat.zero_le k)) t
  have hfirst : head net.first t = some s := hs
  obtain ⟨-, hready⟩ := head_ready h hnet.first hfirst
  rw [resumableUpload, hfirst]
  dsimp only
  cases hc : s.complete with
  | true => rw [if_pos rfl]
  | false =>
    rw [if_neg Bool.false_ne_true]
    refine attempts_resolves (n := 5) hnet hk (by decide) (Nat.zero_le k) (hready hc) fun hi => ?_
    obtain rfl : 0 = k := hi
    exact head_synced hk.learns hnet.first hfirst hc

/-! ## Uploads that fail -/

/-- Asking for the offset again keeps the files the client's own if going on from there does. -/
theorem resync_own {o : HeadOutcome} {rest : State → Bool × Target} (h : Own sha256 F t)
    (hreports : ∀ faults, o = .served faults → ¬ Unreported faults)
    (hrest : ∀ s, Ready sha256 F s.offset t → Own sha256 F (rest s).2) :
    Own sha256 F (match head o t with
      | none => (false, t)
      | some s => if s.complete = true then (true, t) else rest s).2 := by
  cases hs : head o t with
  | none => exact h
  | some s =>
    obtain ⟨-, hready⟩ := head_ready h hreports hs
    by_cases hc : s.complete = true
    · simpa only [if_pos hc] using h
    · simpa only [if_neg hc] using hrest s (hready (by simpa using hc))

/-- However the loop ends, the files are still the client's own. -/
theorem attempts_own (hnet : net.Reports) (h : Ready sha256 F s.offset t) :
    Own sha256 F (attempts base sha256 net F n s t).2 := by
  induction n generalizing s t with
  | zero => exact h.own
  | succ n ih =>
    obtain ⟨⟨res, t'⟩, hp⟩ : ∃ p, patch base sha256 (net.patch (maxAttempts - (n + 1))) F
      s.offset t = p := ⟨_, rfl⟩
    obtain ⟨hown, hok⟩ := patch_ready h (hnet.patch _) hp
    rw [attempts]
    simp only [hp]
    cases hfilter : res.filter fun r => r.Ok with
    | some r =>
      obtain ⟨hres, hr⟩ := Option.filter_eq_some_iff.mp hfilter
      dsimp only
      by_cases hend : r.complete = true ∨ F.length ≤ r.offset
      · rwa [if_pos hend]
      · rw [if_neg hend]
        exact ih ⟨hown.1, Or.inl (hok r hres (by simpa using hr)).1⟩
    | none =>
      dsimp only
      by_cases hlast : res.map Patched.status ≠ some 409 ∧ n = 0
      · rwa [if_pos hlast]
      · rw [if_neg hlast]
        exact resync_own hown (hnet.head _) fun _ hready => ih hready

theorem resumableUpload_own (hnet : net.Reports) (h : Own sha256 F t) :
    Own sha256 F (resumableUpload base sha256 net F t).2 :=
  resync_own h hnet.first fun _ hready => attempts_own hnet hready

/-- The target after uploads of the same file, over one network after another. -/
def afterUploads (base : String) (sha256 : Bytes → Digest) (F : Bytes) (nets : List Network)
    (t : Target) : Target :=
  nets.foldl (fun t net => (resumableUpload base sha256 net F t).2) t

/-- **An upload survives its failures.** Where what the target holds is the client's own, let any
number of uploads of the file go wrong in any way the server reports. If then no `HEAD` of an upload
up to its attempt `k` is lost, the one before it is answered by the handler, and attempt `k` goes
through, the upload resolves and the file is stored with its digest. -/
theorem resumableUpload_recovers (base : String) (sha256 : Bytes → Digest) (F : Bytes) (t : Target)
    (nets : List Network) (net : Network) (k : ℕ) (hnets : ∀ net ∈ nets, net.Reports)
    (hnet : net.Reports) (hk : net.Recovers k) (h : Own sha256 F t) :
    (resumableUpload base sha256 net F (afterUploads base sha256 F nets t)).1 = true ∧
      Stored sha256 F
        (resumableUpload base sha256 net F (afterUploads base sha256 F nets t)).2 := by
  have hown : Own sha256 F (afterUploads base sha256 F nets t) := by
    induction nets generalizing t with
    | nil => exact h
    | cons first nets ih =>
      exact ih _ (fun net hmem => hnets net (List.mem_cons_of_mem _ hmem))
        (resumableUpload_own (hnets first List.mem_cons_self) h)
  have hdone := @resumableUpload_resolves base sha256 F _ net k hnet hk hown
  exact ⟨hdone, resumableUpload_stored hnet hown hdone⟩

/-- The first chunk is cut off after a byte and its answer is lost; the second request goes
through. -/
def Network.cutOnce : Network where
  first := .served Faults.none
  patch i :=
    if i = 0 then .served Faults.none ⟨fun b => Stream.ofBytes (b.take 1), fun b => by
      rw [Stream.bytes_ofBytes]; exact List.take_prefix 1 b⟩ false
    else .served Faults.none Delivery.whole true
  head _ := .served Faults.none

theorem cutOnce_reports : Network.cutOnce.Reports := by
  refine ⟨?_, ?_, ?_⟩
  · rintro _ ⟨⟩
    exact not_unreported_none
  · intro i faults body answered h
    simp only [Network.cutOnce] at h
    split_ifs at h <;> cases h <;> exact not_unreported_none
  · rintro _ _ ⟨⟩
    exact not_unreported_none

theorem cutOnce_recovers : Network.cutOnce.Recovers 1 where
  le := by decide
  asks j _ := by cases j <;> exact fun h => by cases h
  learns := ⟨_, rfl⟩
  goesThrough := ⟨_, _, rfl, ⟨rfl, rfl, fun _ => rfl, fun _ => rfl, rfl, rfl, rfl⟩,
    fun b => ⟨Stream.bytes_ofBytes b, Stream.ends_ofBytes b⟩⟩

/-- No request gets through. -/
def Network.down : Network := ⟨.served Faults.none, fun _ => .lost, fun _ => .served Faults.none⟩

theorem down_reports : Network.down.Reports := by
  refine ⟨?_, ?_, ?_⟩
  · rintro _ ⟨⟩
    exact not_unreported_none
  · rintro _ _ _ _ ⟨⟩
  · rintro _ _ ⟨⟩
    exact not_unreported_none

theorem resumableUpload_cutOnce :
    (resumableUpload "base.wim" sampleDigest .cutOnce [1, 2]
        (afterUploads "base.wim" sampleDigest [1, 2] [.down] Target.absent)).1 = true ∧
      Stored sampleDigest [1, 2] (resumableUpload "base.wim" sampleDigest .cutOnce [1, 2]
        (afterUploads "base.wim" sampleDigest [1, 2] [.down] Target.absent)).2 :=
  resumableUpload_recovers "base.wim" sampleDigest [1, 2] Target.absent [.down] .cutOnce 1
    (by simpa using down_reports) cutOnce_reports cutOnce_recovers
    ⟨published_absent, by simp [Staged, Target.absent]⟩

end WinDep.Upload
