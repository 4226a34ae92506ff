/-
# Overlapping chunks

Chunk requests for one path run at the same time, and the system calls of one fall
between those of another. The size of the staging file is compared with the
offset before the first byte is appended and never again, so what another request
appends meanwhile is not noticed. The files stay intact in the runs where no
request finds the staging file changed when it uses it.
-/

import WinDep.Files.Volume
import WinDep.Upload.Sequential

namespace WinDep.Overlap

open Admin Runs

/-! ## One request, call by call -/

/-- How far a chunk request has come. -/
inductive Phase
  | start
  | checked
  | appending (fd : Ino) (rest : Stream) (n : ℕ)
  | hashing (n : ℕ)
  | publishing (n : ℕ) (sum : Digest)
  | recording (n : ℕ) (sum : Digest)
  | done (reply : Reply)

section

variable (base : String) (sha256 : Bytes → Digest) (offset total : ℕ) (body : Stream)

/-- After the whole body was appended. -/
def appended (n : ℕ) : Phase :=
  if offset + n < total then .done ⟨204, "", some (offset + n), some false⟩ else .hashing n

/-- The next call of a chunk request. -/
def advance : Phase → Volume → Phase × Volume
  | .start, v =>
    let cur := (v.staged.getD []).length
    if offset ≠ cur then (.done { Reply.error 409 "offset mismatch" with offset := some cur }, v)
    else (.checked, v)
  | .checked, v =>
    -- the limit was computed from the size that was checked
    let (fd, v) := v.openPart
    (.appending fd (body.limit (total - offset)) 0, v)
  | .appending _ [] n, v => (appended offset total n, v)
  | .appending fd (r :: rs) n, v =>
    let n := n + r.data.length
    let v := v.append fd r.data
    match r.ending with
    | .more => (.appending fd rs n, v)
    | .eof => (appended offset total n, v)
    | .failed =>
      (.done { Reply.error 500 "write failed" with offset := some (offset + n) }, v)
  | .hashing n, v =>
    -- whatever has the name of the staging file by now is hashed, and then renamed
    match v.staged with
    | none => (.done { Reply.error 500 "finalize failed" with offset := some (offset + n) }, v)
    | some b => (.publishing n (sha256 b), v)
  | .publishing n sum, v =>
    match v.rename with
    | none => (.done { Reply.error 500 "finalize failed" with offset := some (offset + n) }, v)
    | some v => (.recording n sum, v)
  | .recording n sum, v =>
    (.done ⟨200, "", some (offset + n), some true⟩, v.setSidecar (sidecarLine base sum))
  | .done reply, v => (.done reply, v)

end

/-! ## Requests that overlap -/

/-- The phase of every request, and the files. -/
structure System (ι : Type*) where
  phase : ι → Phase
  volume : Volume

section

variable {ι : Type*} [DecidableEq ι] {F : Bytes} (base : String) (sha256 : Bytes → Digest)
  (pieces : ι → Piece F)

/-- One request makes its next call. -/
def step (s : System ι) (i : ι) : System ι :=
  let (phase, v) := advance base sha256 (pieces i).offset F.length (pieces i).body (s.phase i)
    s.volume
  ⟨Function.update s.phase i phase, v⟩

def initial (t : Target) : System ι := ⟨fun _ => .start, .ofTarget t⟩

end

/-- The request is not about to use a staging file that another one changed: it appends where
its own bytes end, and renames a file of the declared length. -/
def Undisturbed {F : Bytes} (piece : Piece F) (phase : Phase) (v : Volume) : Prop :=
  match phase with
  | .appending fd (r :: _) n => r.data ≠ [] → (v.data fd).length = piece.offset + n
  | .publishing _ _ => ∀ b ∈ v.staged, b.length = F.length
  | _ => True

instance {F : Bytes} (piece : Piece F) (phase : Phase) (v : Volume) :
    Decidable (Undisturbed piece phase v) := by
  unfold Undisturbed
  split <;> infer_instance

/-! ## A request that runs alone -/

section

variable {base : String} {sha256 : Bytes → Digest} {offset total : ℕ} {body : Stream}
  {v : Volume} {fd : Ino}

/-- The step of a request that is never interrupted. -/
def alone (base : String) (sha256 : Bytes → Digest) (offset total : ℕ) (body : Stream)
    (p : Phase × Volume) : Phase × Volume :=
  advance base sha256 offset total body p.1 p.2

/-- The appends of a request append the whole body, up to where it fails. -/
theorem leads_appending (rest : Stream) (n : ℕ) (v : Volume) :
    Leads (alone base sha256 offset total body) (.appending fd rest n, v)
      (if rest.Ends then appended offset total (n + rest.bytes.length)
        else .done { Reply.error 500 "write failed" with
          offset := some (offset + (n + rest.bytes.length)) }, v.append fd rest.bytes) := by
  -- one call for each piece of the body, and one where the body runs out
  induction rest generalizing n v with
  | nil =>
    apply Leads.head
    simpa [alone, advance] using Leads.refl _
  | cons r rs ih =>
    apply Leads.head
    cases hending : r.ending with
    | more =>
      have hnext := ih (n + r.data.length) (v.append fd r.data)
      rw [Volume.append_append, add_assoc, ← List.length_append] at hnext
      simpa [alone, advance, hending, Stream.bytes, Stream.Ends] using hnext
    | eof => simpa [alone, advance, hending, Stream.bytes, Stream.Ends] using Leads.refl _
    | failed => simpa [alone, advance, hending, Stream.bytes, Stream.Ends] using Leads.refl _

/-- The handler where no call fails. -/
theorem resumeUpload_none (base : String) (sha256 : Bytes → Digest) (total : ℕ) (body : Stream)
    (t : Target) :
    resumeUpload base Faults.none sha256 (t.part.getD []).length total body t =
      let offset := (t.part.getD []).length
      let written := body.bytes.take (total - offset)
      let staged := t.part.getD [] ++ written
      let reply := { Reply.error 500 "write failed" with offset := some (offset + written.length) }
      if ¬ (body.limit (total - offset)).Ends then (reply, { t with part := some staged })
      else if offset + written.length < total then
        (⟨204, "", some (offset + written.length), some false⟩, { t with part := some staged })
      else (⟨200, "", some (offset + written.length), some true⟩,
        ⟨some staged, none, some (sidecarLine base (sha256 staged))⟩) := by
  have hcur : partSize Faults.none t = (t.part.getD []).length := rfl
  rw [resumeUpload, if_neg (by decide)]
  simp only [hcur, ne_eq, not_true_eq_false, if_false, appendStream_none, decide_eq_true_eq]
  split_ifs <;> rfl

/-- A request opens the staging file at the size it was told. -/
theorem leads_open {t : Target} (hoffset : offset = (t.part.getD []).length) :
    ∃ fd v, Leads (alone base sha256 offset total body) (.start, .ofTarget t)
        (.appending fd (body.limit (total - offset)) 0, v) ∧
      v.part = some fd ∧ v.data fd = t.part.getD [] ∧
      v.target = { t with part := some (t.part.getD []) } := by
  obtain ⟨hpart, hdata, hcontents, hsidecar⟩ := (Volume.ofTarget t).openPart_spec
  rw [Volume.staged_ofTarget] at hdata
  rw [Volume.contents_ofTarget] at hcontents
  refine ⟨_, _, Leads.head (Leads.head ?_), hpart, hdata, ?_⟩
  · simpa [alone, advance, hoffset] using Leads.refl _
  · rw [Volume.target, hcontents, hsidecar, Volume.staged, hpart, Option.map_some, hdata]
    rfl

/-- A complete staging file is published with its digest. -/
theorem leads_publish {n : ℕ} {b : Bytes} (h : v.staged = some b) :
    ∃ w, Leads (alone base sha256 offset total body) (.hashing n, v)
        (.done ⟨200, "", some (offset + n), some true⟩, w) ∧
      w.target = ⟨some b, none, some (sidecarLine base (sha256 b))⟩ := by
  obtain ⟨i, hpart, -⟩ := Option.map_eq_some_iff.mp h
  obtain ⟨w, hw, -⟩ := Volume.rename_of_part hpart
  obtain ⟨hcontents, hnone, -⟩ := Volume.rename_eq_some hw
  refine ⟨w.setSidecar (sidecarLine base (sha256 b)),
    Leads.head (Leads.head (Leads.head ?_)), ?_⟩
  · simpa [alone, advance, h, hw] using Leads.refl _
  · change (⟨w.contents, w.staged, _⟩ : Target) = _
    rw [hcontents, h, Volume.staged, hnone]
    rfl

/-- **Running alone.** A request whose calls are not interrupted does what the handler does. -/
theorem leads_resumeUpload (base : String) (sha256 : Bytes → Digest) (offset total : ℕ)
    (body : Stream) (t : Target) :
    ∃ v, Leads (alone base sha256 offset total body) (.start, .ofTarget t)
        (.done (resumeUpload base Faults.none sha256 offset total body t).1, v) ∧
      v.target = (resumeUpload base Faults.none sha256 offset total body t).2 := by
  by_cases hoffset : offset = (t.part.getD []).length
  · -- the check passes, the whole body is appended, and its end or failure decides
    obtain ⟨fd, v, hopen, hpart, hdata, htarget⟩ :=
      @leads_open base sha256 offset total body t hoffset
    have happend := hopen.trans (leads_appending (body.limit (total - offset)) 0 v)
    rw [Stream.bytes_limit, Nat.zero_add] at happend
    have hstaged := @Volume.target_append v fd (body.bytes.take (total - offset)) hpart
    rw [htarget, hdata] at hstaged
    have hreply := resumeUpload_none base sha256 total body t
    rw [← hoffset] at hreply
    dsimp only at hreply
    rw [hreply]
    by_cases hends : (body.limit (total - offset)).Ends
    · rw [if_pos hends, appended] at happend
      rw [if_neg (not_not.mpr hends)]
      by_cases hlt : offset + (body.bytes.take (total - offset)).length < total
      · rw [if_pos hlt] at happend ⊢
        exact ⟨_, happend, hstaged⟩
      · rw [if_neg hlt] at happend ⊢
        obtain ⟨w, hpublish, hw⟩ := leads_publish (congrArg Target.part hstaged)
        exact ⟨w, happend.trans hpublish, hw⟩
    · rw [if_neg hends] at happend
      rw [if_pos hends]
      exact ⟨_, happend, hstaged⟩
  · have hcur : partSize Faults.none t = (t.part.getD []).length := rfl
    have hreply : resumeUpload base Faults.none sha256 offset total body t =
        ({ Reply.error 409 "offset mismatch" with offset := some (t.part.getD []).length }, t) := by
      rw [resumeUpload, if_neg (by decide)]
      simp only [hcur, ne_eq, hoffset, not_false_eq_true, if_true]
    rw [hreply]
    refine ⟨.ofTarget t, Leads.head ?_, Volume.target_ofTarget t⟩
    simpa [alone, advance, hoffset] using Leads.refl _

end

/-! ## What an undisturbed call keeps -/

variable {base : String} {sha256 : Bytes → Digest} {F : Bytes} {v w : Volume} {fd : Ino}
  {b : Bytes} {n : ℕ} {phase : Phase} {piece : Piece F}

/-- Every file is a prefix of `F`, and the published one is `F`. -/
structure Intact (F : Bytes) (v : Volume) : Prop where
  data : ∀ i, v.data i <+: F
  file : ∀ b ∈ v.contents, b = F

/-- What a request has yet to append follows what it appended. -/
def Following (piece : Piece F) (phase : Phase) : Prop :=
  ∀ fd rest n, phase = .appending fd rest n → rest.bytes <+: F.drop (piece.offset + n)

theorem Intact.staged (h : Intact F v) (hb : b ∈ v.staged) : b <+: F := by
  obtain ⟨i, -, rfl⟩ := Option.mem_map.mp hb
  exact h.data i

theorem Intact.create (h : Intact F v) : Intact F v.create := by
  refine ⟨fun i => ?_, ?_⟩
  · by_cases hi : i = v.next
    · rw [hi, Volume.data_create, Function.update_self]
      exact List.nil_prefix
    · rw [Volume.data_create, Function.update_of_ne hi]
      exact h.data i
  · rw [Volume.contents_create]
    exact h.file

theorem Intact.openPart (h : Intact F v) : Intact F v.openPart.2 := by
  unfold Volume.openPart
  split
  · exact h
  · exact h.create

/-- Appending the bytes of `F` that follow keeps the files intact; nothing follows all of `F`. -/
theorem Intact.append (h : Intact F v) (hdata : b <+: F.drop (v.data fd).length) :
    Intact F (v.append fd b) := by
  have happend : v.data fd ++ b <+: F := prefix_append (h.data fd) hdata
  refine ⟨fun i => ?_, fun c hc => ?_⟩
  · rw [Volume.data_append]
    by_cases hi : i = fd
    · rw [hi, Function.update_self]
      exact happend
    · rw [Function.update_of_ne hi]
      exact h.data i
  · by_cases hfd : fd ∈ v.file
    · -- the file was published meanwhile, so it is complete and nothing is left to append
      have hF : v.data fd = F := h.file _ (Option.mem_map.mpr ⟨fd, hfd, rfl⟩)
      obtain ⟨i, hi, rfl⟩ := Option.mem_map.mp hc
      obtain rfl : fd = i := Option.mem_unique hfd hi
      have hb : b = [] := by simpa [hF] using hdata
      simp [hb, hF]
    · rw [Volume.append, Volume.contents_setData hfd] at hc
      exact h.file c hc

theorem Intact.rename (h : Intact F v) (hlength : ∀ b ∈ v.staged, b.length = F.length)
    (hw : v.rename = some w) : Intact F w := by
  obtain ⟨hcontents, -, -, hdata, -, -⟩ := Volume.rename_eq_some hw
  refine ⟨fun i => hdata ▸ h.data i, fun b hb => ?_⟩
  rw [hcontents] at hb
  exact (h.staged hb).eq_of_length (hlength b hb)

theorem following_appended : Following piece (appended piece.offset F.length n) := by
  intro fd rest m h
  unfold appended at h
  split_ifs at h

/-- A piece of the body belongs where the request is, and the rest of the body after it. -/
theorem Following.cons {r : ReadResult} {rs : Stream}
    (h : Following piece (.appending fd (r :: rs) n)) :
    r.data <+: F.drop (piece.offset + n) ∧
      (r.ending = .more → rs.bytes <+: F.drop (piece.offset + (n + r.data.length))) := by
  have hrest := h fd (r :: rs) n rfl
  rw [Stream.bytes] at hrest
  split_ifs at hrest with hmore
  · refine ⟨(List.prefix_append _ _).trans hrest, fun _ => ?_⟩
    have hdrop := List.IsPrefix.drop hrest r.data.length
    rwa [List.drop_left, List.drop_drop, add_assoc] at hdrop
  · exact ⟨hrest, fun h => absurd h hmore⟩

/-- **One call.** -/
theorem advance_intact (base : String) (sha256 : Bytes → Digest) (hv : Intact F v)
    (hphase : Following piece phase) (hundisturbed : Undisturbed piece phase v) :
    Intact F (advance base sha256 piece.offset F.length piece.body phase v).2 ∧
      Following piece (advance base sha256 piece.offset F.length piece.body phase v).1 := by
  cases phase with
  | start =>
    simp only [advance]
    split_ifs <;> exact ⟨hv, by rintro _ _ _ ⟨⟩⟩
  | checked =>
    refine ⟨hv.openPart, ?_⟩
    rintro _ _ _ ⟨⟩
    rw [Stream.bytes_limit]
    exact (List.take_prefix _ _).trans piece.body_prefix
  | appending fd rest n =>
    cases rest with
    | nil => exact ⟨hv, following_appended⟩
    | cons r rs =>
      obtain ⟨hdata, hrest⟩ := hphase.cons
      -- an empty piece changes nothing, even on a file that was disturbed
      have happend : Intact F (v.append fd r.data) := by
        by_cases hnil : r.data = []
        · exact hv.append (by simp [hnil])
        · exact hv.append (by rwa [hundisturbed hnil])
      simp only [advance]
      cases hending : r.ending with
      | more =>
        refine ⟨happend, ?_⟩
        rintro _ _ _ ⟨⟩
        exact hrest hending
      | eof => exact ⟨happend, following_appended⟩
      | failed => exact ⟨happend, by rintro _ _ _ ⟨⟩⟩
  | hashing n =>
    simp only [advance]
    cases v.staged <;> exact ⟨hv, by rintro _ _ _ ⟨⟩⟩
  | publishing n sum =>
    simp only [advance]
    cases hw : v.rename with
    | none => exact ⟨hv, by rintro _ _ _ ⟨⟩⟩
    | some w => exact ⟨hv.rename hundisturbed hw, by rintro _ _ _ ⟨⟩⟩
  | recording n sum => exact ⟨⟨hv.data, hv.file⟩, by rintro _ _ _ ⟨⟩⟩
  | done reply => exact ⟨hv, hphase⟩

/-! ## Runs -/

section

variable {ι : Type*} {pieces : ι → Piece F} {s : System ι} {i : ι}

/-- The files are intact, and every request follows what it appended. -/
def Sound (pieces : ι → Piece F) (s : System ι) : Prop :=
  Intact F s.volume ∧ ∀ i, Following (pieces i) (s.phase i)

theorem sound_initial {t : Target} (hstaged : Staged F t) (hfile : ∀ b ∈ t.file, b = F) :
    Sound pieces (initial t) := by
  refine ⟨⟨fun i => ?_, fun b hb => ?_⟩, fun i => by rintro _ _ _ ⟨⟩⟩
  · change (Volume.ofTarget t).data i <+: F
    -- the published file, the staging file, and the i-nodes nobody uses
    unfold Volume.ofTarget
    dsimp only
    split_ifs
    · cases h : t.file with
      | none => exact List.nil_prefix
      | some b => rw [Option.getD_some, hfile b h]
    · exact hstaged.getD
    · exact List.nil_prefix
  · exact hfile b (by simpa [initial] using hb)

variable [DecidableEq ι]

/-- A request of the system that runs alone does what the handler does. -/
theorem run_alone (base : String) (sha256 : Bytes → Digest) (pieces : ι → Piece F) (i : ι)
    (t : Target) :
    ∃ k, (run (step base sha256 pieces) (List.replicate k i) (initial t)).phase i =
        .done (resumeUpload base Faults.none sha256 (pieces i).offset F.length (pieces i).body
          t).1 ∧
      (run (step base sha256 pieces) (List.replicate k i) (initial t)).volume.target =
        (resumeUpload base Faults.none sha256 (pieces i).offset F.length (pieces i).body t).2 := by
  obtain ⟨v, ⟨k, hk⟩, hv⟩ := leads_resumeUpload base sha256 (pieces i).offset F.length
    (pieces i).body t
  -- a run of one request only, seen through its own phase
  have hview (s : System ι) : ((step base sha256 pieces s i).phase i,
      (step base sha256 pieces s i).volume) =
        alone base sha256 (pieces i).offset F.length (pieces i).body (s.phase i, s.volume) := by
    simp [step, alone]
  have hrun := run_replicate (fun s : System ι => (s.phase i, s.volume)) hview k
    (initial t)
  obtain ⟨hphase, hvolume⟩ := Prod.mk.inj (hrun.trans hk)
  exact ⟨k, hphase, hvolume ▸ hv⟩

theorem Sound.step (h : Sound pieces s)
    (hundisturbed : Undisturbed (pieces i) (s.phase i) s.volume) :
    Sound pieces (step base sha256 pieces s i) := by
  obtain ⟨hv, hphase⟩ := advance_intact base sha256 h.1 (h.2 i) hundisturbed
  refine ⟨hv, fun j => ?_⟩
  by_cases hj : j = i
  · subst hj
    simpa only [Overlap.step, Function.update_self] using hphase
  · simpa only [Overlap.step, Function.update_of_ne hj] using h.2 j

/-- **Undisturbed runs.** In every run in which no request uses a staging file that another one
changed, the staging file stays a prefix of `F` and what is published is `F`. -/
theorem run_intact (base : String) (sha256 : Bytes → Digest) (pieces : ι → Piece F) (t : Target)
    (schedule : List ι) (hstaged : Staged F t) (hfile : ∀ b ∈ t.file, b = F)
    (h : Along (step base sha256 pieces)
      (fun s i => Undisturbed (pieces i) (s.phase i) s.volume) schedule (initial t)) :
    (∀ b ∈ (run (step base sha256 pieces) schedule (initial t)).volume.staged, b <+: F) ∧
      ∀ b ∈ (run (step base sha256 pieces) schedule (initial t)).volume.contents, b = F := by
  have hsound : Sound pieces (run (step base sha256 pieces) schedule (initial t)) :=
    h.invariant (fun _ _ hs hu => hs.step hu) (sound_initial hstaged hfile)
  exact ⟨fun _ => hsound.1.staged, hsound.1.file⟩

end

/-- The pieces of a file of two bytes, one byte each. -/
def samplePieces (second : Bool) : Piece [1, 2] :=
  if second then ⟨1, by decide, .ofBytes [2], by decide⟩
  else ⟨0, by decide, .ofBytes [1], by decide⟩

/-- The second request is checked, and opens the staging file, before the first one is answered. -/
def overlapping : List Bool :=
  [false, false, false, true, true, false, true, true, true, true, true]

theorem run_intact_sample :
    (∀ b ∈ (run (step "base.wim" sampleDigest samplePieces) overlapping
        (initial Target.absent)).volume.staged, b <+: [1, 2]) ∧
      ∀ b ∈ (run (step "base.wim" sampleDigest samplePieces) overlapping
        (initial Target.absent)).volume.contents, b = [1, 2] :=
  run_intact _ _ _ _ _ staged_absent (by rintro b ⟨⟩) (by decide)

-- the second request has published the file
example : (run (step "base.wim" sampleDigest samplePieces) overlapping
    (initial Target.absent)).volume.contents = some [1, 2] := by
  decide

/-- A retry that is checked while the first request has yet to append appends once more. -/
theorem retry_appends_twice :
    ∃ (F : Bytes) (pieces : Bool → Piece F) (schedule : List Bool),
      (∀ i, (pieces i).body.bytes = F.drop (pieces i).offset) ∧
      ¬ ∀ b ∈ (run (step "base.wim" sampleDigest pieces) schedule
        (initial Target.absent)).volume.staged, b <+: F := by
  refine ⟨[1], fun _ => ⟨0, by decide, .ofBytes [1], by decide⟩,
    [false, true, false, true, false, true], ?_, ?_⟩
  · simp
  · decide

end WinDep.Overlap
