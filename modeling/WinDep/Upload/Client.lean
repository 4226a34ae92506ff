/-
# The browser's upload client

The client asks for the offset, sends the rest of the file from there and asks
again when something went wrong, a bounded number of times. It takes a target
that is already published, or a staging file that is already there, for its own,
so what it reports as uploaded is its file exactly when they are.
-/

import WinDep.Upload.Sequential

namespace WinDep.Upload

open Admin

/-! ## The network -/

/-- How much of a body reaches the server, and in which pieces. -/
structure Delivery where
  stream : Bytes → Stream
  stream_prefix : ∀ b, (stream b).bytes <+: b

def Delivery.whole : Delivery := ⟨Stream.ofBytes, fun b => by simp⟩

/-- What becomes of a `HEAD`: the connection drops, something answers with an error of its own,
or the handler answers. -/
inductive HeadOutcome
  | lost
  | refused (status : ℕ) (h : 400 ≤ status)
  | served (faults : Faults)

/-- What becomes of a `PATCH`. A request may be handled while its answer is lost. -/
inductive PatchOutcome
  | lost
  | refused (status : ℕ) (h : 400 ≤ status)
  | served (faults : Faults) (body : Delivery) (answered : Bool)

/-- The outcomes of the first `HEAD`, and of the `PATCH` and the `HEAD` of every attempt. -/
structure Network where
  first : HeadOutcome
  patch : ℕ → PatchOutcome
  head : ℕ → HeadOutcome

/-! ## The client -/

structure State where
  offset : ℕ
  complete : Bool

/-- A number in a header. `Number(null)` is zero, so a missing header is zero as well. -/
def num (v : Option ℕ) : ℕ := v.getD 0

/-- How many bytes the server already holds; a lost request throws. -/
def head (o : HeadOutcome) (t : Target) : Option State :=
  match o with
  | .lost => none
  | .refused _ _ => some ⟨num none, false⟩
  | .served faults =>
    let r := uploadOffset faults t
    some ⟨num r.offset, r.complete = some true⟩

/-- The state after a chunk, with the status. -/
structure Patched extends State where
  status : ℕ

def maxAttempts : ℕ := 6

section

variable (base : String) (sha256 : Bytes → Digest)

/-- Send the file from an offset on; a lost request or answer throws. -/
def patch (o : PatchOutcome) (file : Bytes) (offset : ℕ) (t : Target) :
    Option Patched × Target :=
  match o with
  | .lost => (none, t)
  | .refused status _ => (some ⟨⟨num none, false⟩, status⟩, t)
  | .served faults body answered =>
    -- the request takes effect whether or not its answer arrives
    let (r, t) := resumeUpload base faults sha256 offset file.length
      (body.stream (file.drop offset)) t
    (if answered then some ⟨⟨num r.offset, r.complete = some true⟩, r.status⟩ else none, t)

/-- A response with a status that means success. -/
def Patched.Ok (r : Patched) : Prop := 200 ≤ r.status ∧ r.status < 300

instance (r : Patched) : Decidable r.Ok := inferInstanceAs (Decidable (_ ∧ _))

/-- The attempts that are left. The flag says that the promise resolved. -/
def attempts (net : Network) (file : Bytes) : ℕ → State → Target → Bool × Target
  | 0, _, t => (false, t)
  | n + 1, state, t =>
    let attempt := maxAttempts - (n + 1)
    let (res, t) := patch base sha256 (net.patch attempt) file state.offset t
    match res.filter fun r => r.Ok with
    | some r =>
      -- the declared length reached counts as complete, header or not
      if r.complete ∨ file.length ≤ r.offset then (true, t)
      else attempts net file n { state with offset := r.offset } t
    | none =>
      -- an offset mismatch is no error; an error of the last attempt is thrown
      if (res.map Patched.status) ≠ some 409 ∧ n = 0 then (false, t)
      else
        match head (net.head attempt) t with
        | none => (false, t)
        | some state => if state.complete then (true, t) else attempts net file n state t

/-- Upload a file; the flag says that the promise resolved. -/
def resumableUpload (net : Network) (file : Bytes) (t : Target) : Bool × Target :=
  match head net.first t with
  | none => (false, t)
  | some state =>
    if state.complete then (true, t) else attempts base sha256 net file maxAttempts state t

end

/-! ## What an upload should leave -/

/-- The file is published with its digest. -/
def Stored (sha256 : Bytes → Digest) (F : Bytes) (t : Target) : Prop :=
  t.file = some F ∧ Recorded sha256 F t

/-- What is published is the file already, or what is staged is a prefix of it. -/
def Own (sha256 : Bytes → Digest) (F : Bytes) (t : Target) : Prop :=
  Published sha256 F t ∧ (t.file = none → Staged F t)

/-- The failures that the handlers do not report. -/
def Unreported (faults : Faults) : Prop :=
  faults.statFile = true ∨ faults.statPart = true ∨ faults.sidecar ≠ .none

/-- Every failure on the server is reported as one. -/
structure Network.Reports (net : Network) : Prop where
  first : ∀ faults, net.first = .served faults → ¬ Unreported faults
  patch : ∀ i faults body answered, net.patch i = .served faults body answered →
    ¬ Unreported faults
  head : ∀ i faults, net.head i = .served faults → ¬ Unreported faults

variable {base : String} {sha256 : Bytes → Digest} {F : Bytes} {t t' : Target} {s : State}
  {net : Network} {offset n : ℕ} {res : Option Patched}

/-! ## Steps of the client -/

/-- What the client is about to send fits: the staging file is a prefix of the file, or the
upload is over and the client starts from zero. -/
def Ready (sha256 : Bytes → Digest) (F : Bytes) (offset : ℕ) (t : Target) : Prop :=
  Published sha256 F t ∧ (Staged F t ∨ t.file.isSome = true ∧ offset = 0)

theorem Ready.own (h : Ready sha256 F offset t) : Own sha256 F t :=
  ⟨h.1, fun hnone => h.2.resolve_right fun hfile => by simp [hnone] at hfile⟩

theorem Own.stored (h : Own sha256 F t) (hfile : t.file.isSome = true) : Stored sha256 F t := by
  obtain ⟨G, hG⟩ := Option.isSome_iff_exists.mp hfile
  obtain ⟨rfl, hrecorded⟩ := h.1 G hG
  exact ⟨hG, hrecorded⟩

/-- A `HEAD` that says complete is right, and any other leaves the client ready. -/
theorem head_ready {o : HeadOutcome} (h : Own sha256 F t)
    (hreports : ∀ faults, o = .served faults → ¬ Unreported faults) (hs : head o t = some s) :
    (s.complete = true → t.file.isSome = true) ∧
      (s.complete = false → Ready sha256 F s.offset t) := by
  cases o with
  | lost => simp [head] at hs
  | refused status =>
    -- an error answer has no headers: the client starts from zero
    obtain rfl := Option.some.inj hs
    refine ⟨by simp, fun _ => ⟨h.1, ?_⟩⟩
    cases hfile : t.file with
    | none => exact Or.inl (h.2 hfile)
    | some G => exact Or.inr ⟨rfl, rfl⟩
  | served faults =>
    -- the published file is found if it is there
    have hstat : faults.statFile = false := by
      simpa using fun hstat => hreports faults rfl (Or.inl hstat)
    obtain rfl := Option.some.inj hs
    cases hfile : t.file with
    | none => simpa [uploadOffset, hfile] using ⟨h.1, Or.inl (h.2 hfile)⟩
    | some G => simp [uploadOffset, hfile, hstat]

theorem resumed_mismatch {faults : Faults} {total : ℕ} {body : Stream} {reply : Reply}
    (h : Resumed base faults sha256 offset total body t reply t')
    (hne : offset ≠ partSize faults t) : t' = t := by
  cases h with
  | refused | mismatch => rfl
  | failed hoffset | more hoffset | unpublished hoffset | published hoffset =>
    exact absurd hoffset hne

/-- A chunk is accepted only where the staging file ends, and an accepted chunk that completes
the file has published it. -/
theorem resumed_success {faults : Faults} {total : ℕ} {body : Stream} {reply : Reply}
    (h : Resumed base faults sha256 offset total body t reply t')
    (hok : 200 ≤ reply.status ∧ reply.status < 300) :
    offset = partSize faults t ∧
      (reply.complete = some true ∨ total ≤ num reply.offset → t'.file.isSome = true) := by
  cases h with
  | refused | mismatch | failed | unpublished => simp [Reply.error] at hok
  | more hoffset hwritten hlt =>
    refine ⟨hoffset, ?_⟩
    rintro (hcomplete | hle)
    · simp at hcomplete
    · exact absurd hle (not_le.mpr hlt)
  | published hoffset => exact ⟨hoffset, fun _ => by simp⟩

/-- A staging file that is no prefix is not empty. -/
theorem partSize_ne_zero {faults : Faults} (hstat : faults.statPart = false)
    (h : ¬ Staged F t) : 0 ≠ partSize faults t := by
  intro hzero
  rw [partSize_eq hstat] at hzero
  apply h
  intro p hp
  rw [hp, Option.getD_some] at hzero
  rw [List.length_eq_zero_iff.mp hzero.symm]
  exact List.nil_prefix

/-- After a chunk the files are still the client's own, and an answer that ends the upload is
right. -/
theorem patch_ready {o : PatchOutcome} (h : Ready sha256 F offset t)
    (hreports : ∀ faults body answered, o = .served faults body answered → ¬ Unreported faults)
    (hp : patch base sha256 o F offset t = (res, t')) :
    Own sha256 F t' ∧ ∀ r, res = some r → r.Ok →
      Staged F t' ∧ (r.complete = true ∨ F.length ≤ r.offset → t'.file.isSome = true) := by
  cases o with
  | lost =>
    obtain ⟨rfl, rfl⟩ := Prod.mk.inj hp
    exact ⟨h.own, by simp⟩
  | refused status hstatus =>
    obtain ⟨rfl, rfl⟩ := Prod.mk.inj hp
    refine ⟨h.own, ?_⟩
    rintro r ⟨⟩ hok
    exact absurd hok.2 (by simpa using by omega)
  | served faults body answered =>
    have hstat : faults.statPart = false := by
      simpa using fun hstat => hreports faults body answered rfl (Or.inr (Or.inl hstat))
    have hsidecar : faults.sidecar = .none :=
      not_not.mp fun hne => hreports faults body answered rfl (Or.inr (Or.inr hne))
    obtain ⟨⟨reply, t''⟩, hresume⟩ : ∃ p, resumeUpload base faults sha256 offset F.length
      (body.stream (F.drop offset)) t = p := ⟨_, rfl⟩
    have hspec := resumeUpload_spec base faults sha256 offset F.length
      (body.stream (F.drop offset)) t
    rw [hresume] at hspec
    simp only [patch, hresume] at hp
    obtain ⟨hres, rfl⟩ := Prod.mk.inj hp
    have hanswer : ∀ r, res = some r → r.Ok → 200 ≤ reply.status ∧ reply.status < 300 ∧
        (r.complete = true ∨ F.length ≤ r.offset →
          reply.complete = some true ∨ F.length ≤ num reply.offset) := by
      intro r hr hok
      rw [← hres] at hr
      split_ifs at hr
      obtain rfl := Option.some.inj hr
      exact ⟨hok.1, hok.2, by simp⟩
    by_cases hstaged : Staged F t
    · -- the staging file is the client's own, and stays so
      have hstaged' := hspec.staged hstat (body.stream_prefix _) hstaged
      have hpublished' :=
        hspec.published_file hstat hsidecar (body.stream_prefix _) hstaged h.1
      refine ⟨⟨hpublished', fun _ => hstaged'⟩, fun r hr hok => ⟨hstaged', fun hend => ?_⟩⟩
      obtain ⟨hge, hlt, hends⟩ := hanswer r hr hok
      exact (resumed_success hspec ⟨hge, hlt⟩).2 (hends hend)
    · -- what is staged is not the client's: the offset is zero, and every chunk is refused
      obtain ⟨-, rfl⟩ := h.2.resolve_left hstaged
      have hne := partSize_ne_zero hstat hstaged
      obtain rfl := resumed_mismatch hspec hne
      refine ⟨h.own, fun r hr hok => ?_⟩
      obtain ⟨hge, hlt, -⟩ := hanswer r hr hok
      exact absurd (resumed_success hspec ⟨hge, hlt⟩).1 hne

/-- Asking for the offset again is sound if going on from there is. -/
theorem resync_stored {o : HeadOutcome} {rest : State → Bool × Target} (h : Own sha256 F t)
    (hreports : ∀ faults, o = .served faults → ¬ Unreported faults)
    (hrest : ∀ s, Ready sha256 F s.offset t → (rest s).1 = true → Stored sha256 F (rest s).2)
    (hdone : (match head o t with
      | none => (false, t)
      | some s => if s.complete = true then (true, t) else rest s).1 = true) :
    Stored sha256 F (match head o t with
      | none => (false, t)
      | some s => if s.complete = true then (true, t) else rest s).2 := by
  cases hs : head o t with
  | none => simp [hs] at hdone
  | some s =>
    obtain ⟨hcomplete, hready⟩ := head_ready h hreports hs
    simp only [hs] at hdone ⊢
    by_cases hc : s.complete = true
    · rw [if_pos hc]
      exact h.stored (hcomplete hc)
    · -- not complete: the loop goes on from the offset that was answered
      rw [if_neg hc] at hdone ⊢
      exact hrest s (hready (by simpa using hc)) hdone

/-- **Soundness of the loop.** -/
theorem attempts_stored (hnet : net.Reports) (h : Ready sha256 F s.offset t)
    (hdone : (attempts base sha256 net F n s t).1 = true) :
    Stored sha256 F (attempts base sha256 net F n s t).2 := by
  induction n generalizing s t with
  | zero => simp [attempts] at hdone
  | succ n ih =>
    rw [attempts] at hdone ⊢
    obtain ⟨⟨res, t'⟩, hp⟩ : ∃ p, patch base sha256 (net.patch (maxAttempts - (n + 1))) F
      s.offset t = p := ⟨_, rfl⟩
    obtain ⟨hown, hok⟩ := patch_ready h (hnet.patch _) hp
    simp only [hp] at hdone ⊢
    cases hfilter : res.filter fun r => r.Ok with
    | some r =>
      obtain ⟨hres, hr⟩ := Option.filter_eq_some_iff.mp hfilter
      obtain ⟨hstaged, hends⟩ := hok r hres (by simpa using hr)
      simp only [hfilter] at hdone ⊢
      by_cases hend : r.complete = true ∨ F.length ≤ r.offset
      · -- the loop ends here, and the chunk published the file
        rw [if_pos hend]
        exact hown.stored (hends hend)
      · rw [if_neg hend] at hdone ⊢
        exact ih ⟨hown.1, Or.inl hstaged⟩ hdone
    | none =>
      simp only [hfilter] at hdone ⊢
      by_cases hlast : res.map Patched.status ≠ some 409 ∧ n = 0
      · rw [if_pos hlast] at hdone
        cases hdone
      · rw [if_neg hlast] at hdone ⊢
        exact resync_stored hown (hnet.head _) (fun _ hready => ih hready) hdone

theorem resumableUpload_stored (hnet : net.Reports) (h : Own sha256 F t)
    (hdone : (resumableUpload base sha256 net F t).1 = true) :
    Stored sha256 F (resumableUpload base sha256 net F t).2 :=
  resync_stored h hnet.first (fun _ hready => attempts_stored hnet hready) hdone

/-! ## A network without faults -/

def Network.perfect : Network :=
  ⟨.served Faults.none, fun _ => .served Faults.none Delivery.whole true,
    fun _ => .served Faults.none⟩

theorem not_unreported_none : ¬ Unreported Faults.none := by
  simp [Unreported, Faults.none]

theorem perfect_reports : Network.perfect.Reports := by
  refine ⟨?_, ?_, ?_⟩
  · rintro _ ⟨⟩
    exact not_unreported_none
  · rintro _ _ _ _ ⟨⟩
    exact not_unreported_none
  · rintro _ _ ⟨⟩
    exact not_unreported_none

/-- Without faults one chunk appends what is left of the file by its length, and publishes. -/
theorem resumeUpload_perfect (base : String) (sha256 : Bytes → Digest) (F : Bytes) (t : Target) :
    (resumeUpload base Faults.none sha256 (t.part.getD []).length F.length
        (Stream.ofBytes (F.drop (t.part.getD []).length)) t).1.status = 200 ∧
      (resumeUpload base Faults.none sha256 (t.part.getD []).length F.length
        (Stream.ofBytes (F.drop (t.part.getD []).length)) t).1.complete = some true ∧
      (resumeUpload base Faults.none sha256 (t.part.getD []).length F.length
        (Stream.ofBytes (F.drop (t.part.getD []).length)) t).2.file =
          some (t.part.getD [] ++ F.drop (t.part.getD []).length) := by
  have hspec := resumeUpload_spec base Faults.none sha256 (t.part.getD []).length F.length
    (Stream.ofBytes (F.drop (t.part.getD []).length)) t
  have htake : (F.drop (t.part.getD []).length).take (F.length - (t.part.getD []).length) =
      F.drop (t.part.getD []).length := List.take_of_length_le (by simp)
  -- of the outcomes of a chunk, only publishing is possible without faults
  generalize (resumeUpload base Faults.none sha256 (t.part.getD []).length F.length
    (Stream.ofBytes (F.drop (t.part.getD []).length)) t).1 = reply,
    (resumeUpload base Faults.none sha256 (t.part.getD []).length F.length
      (Stream.ofBytes (F.drop (t.part.getD []).length)) t).2 = t' at hspec ⊢
  cases hspec with
  | refused hmkdir => cases hmkdir
  | mismatch hoffset => exact absurd rfl hoffset
  | failed _ hfault =>
    rw [appendStream_ok rfl rfl (fun _ => rfl) (fun _ => rfl)
      ((Stream.ends_ofBytes _).limit _)] at hfault
    cases hfault
  | more _ hwritten hlt =>
    rw [Stream.bytes_ofBytes, htake] at hwritten
    rw [hwritten, List.length_drop] at hlt
    omega
  | unpublished _ hfault => rcases hfault with h | h <;> cases h
  | published _ hwritten hstaged =>
    rw [Stream.bytes_ofBytes, htake] at hwritten
    rw [hwritten] at hstaged
    exact ⟨rfl, rfl, by rw [writeSidecar_file, hstaged]⟩

theorem attempts_done {r : Patched}
    (hp : patch base sha256 (net.patch (maxAttempts - (n + 1))) F s.offset t = (some r, t'))
    (hok : r.Ok) (hend : r.complete = true) :
    attempts base sha256 net F (n + 1) s t = (true, t') := by
  have hfilter : ((some r).filter fun r => r.Ok) = some r := by
    rw [Option.filter_some, if_pos (decide_eq_true hok)]
  simp only [attempts, hp, hfilter]
  rw [if_pos (Or.inl hend)]

/-- Over a perfect network the upload resolves. What is published then is what was, or else the
staging file with what the client sent after it. -/
theorem resumableUpload_perfect (base : String) (sha256 : Bytes → Digest) (F : Bytes)
    (t : Target) :
    (resumableUpload base sha256 .perfect F t).1 = true ∧
      (t.file.isSome = true → (resumableUpload base sha256 .perfect F t).2 = t) ∧
      (t.file = none → (resumableUpload base sha256 .perfect F t).2.file =
        some (t.part.getD [] ++ F.drop (t.part.getD []).length)) := by
  cases hfile : t.file with
  | some G =>
    have hhead : head Network.perfect.first t = some ⟨num (some G.length), true⟩ := by
      simp [Network.perfect, head, uploadOffset, hfile, Faults.none]
    simp [resumableUpload, hhead]
  | none =>
    have hhead : head Network.perfect.first t = some ⟨(t.part.getD []).length, false⟩ := by
      simp [Network.perfect, head, uploadOffset, hfile, num, partSize, Faults.none]
    obtain ⟨hstatus, hcomplete, hpublished⟩ := resumeUpload_perfect base sha256 F t
    obtain ⟨⟨reply, t'⟩, hresume⟩ : ∃ p, resumeUpload base Faults.none sha256
      (t.part.getD []).length F.length (Stream.ofBytes (F.drop (t.part.getD []).length)) t = p :=
      ⟨_, rfl⟩
    rw [hresume] at hstatus hcomplete hpublished
    dsimp only at hstatus hcomplete hpublished
    -- the first attempt sends the rest and is answered that the file is complete
    have hp : patch base sha256 (Network.perfect.patch 0) F (t.part.getD []).length t =
        (some ⟨⟨num reply.offset, true⟩, 200⟩, t') := by
      simp [patch, Network.perfect, Delivery.whole, hresume, hstatus, hcomplete]
    have hrun : resumableUpload base sha256 .perfect F t = (true, t') := by
      rw [resumableUpload, hhead]
      change attempts base sha256 .perfect F (5 + 1) ⟨(t.part.getD []).length, false⟩ t = _
      have hok : Patched.Ok ⟨⟨num reply.offset, true⟩, 200⟩ :=
        ⟨le_refl 200, show 200 < 300 by decide⟩
      exact attempts_done hp hok rfl
    rw [hrun]
    exact ⟨rfl, by simp, fun _ => hpublished⟩

/-- **What a reported upload means.** An upload that resolves has stored the file, whatever the
network does, if and only if what the target held was the client's own. -/
theorem resumableUpload_stored_iff (base : String) (sha256 : Bytes → Digest) (F : Bytes)
    (t : Target) :
    (∀ net : Network, net.Reports → (resumableUpload base sha256 net F t).1 = true →
        Stored sha256 F (resumableUpload base sha256 net F t).2) ↔
      Own sha256 F t := by
  constructor
  · -- over the perfect network the target shows whose bytes were there
    intro h
    obtain ⟨hdone, hpublished, hunpublished⟩ := resumableUpload_perfect base sha256 F t
    have hstored := h .perfect perfect_reports hdone
    cases hfile : t.file with
    | some G =>
      rw [hpublished (by simp [hfile])] at hstored
      refine ⟨fun G' hG' => ?_, by simp [hfile]⟩
      rw [hstored.1, Option.some.injEq] at hG'
      exact ⟨hG'.symm, hstored.2⟩
    | none =>
      have hF := (hunpublished hfile).symm.trans hstored.1
      refine ⟨by simp [Published, hfile], fun _ p hp => ?_⟩
      rw [hp, Option.getD_some, Option.some.injEq] at hF
      exact ⟨_, hF⟩
  · exact fun h net hnet hdone => resumableUpload_stored hnet h hdone

/-- A target that was published from another file is left as it is, and reported as uploaded. -/
theorem stale_file_reported :
    ∃ (F : Bytes) (t : Target) (net : Network), net.Reports ∧
      (resumableUpload "base.wim" sampleDigest net F t).1 = true ∧
      ¬ Stored sampleDigest F
        (resumableUpload "base.wim" sampleDigest net F t).2 := by
  refine ⟨[1], ⟨some [2], none, none⟩, .perfect, perfect_reports, rfl, ?_⟩
  rintro ⟨hfile, -⟩
  exact absurd hfile (by decide)

end WinDep.Upload
