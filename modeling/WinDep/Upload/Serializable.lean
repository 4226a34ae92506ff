/-
# Writers that overlap

Several requests write the same file. Requests that all succeed never share a
staging file, so what is published is always whole. It is what the requests give
one after another if the secrets a request keeps have not changed since it read
them, and the sidecar is right if the last request to record a digest recorded
what is published.
-/

import WinDep.Upload.Sequential
import WinDep.Upload.Writers

namespace WinDep.Writers

open Admin Runs

/-! ## Requests that overlap -/

structure System (ι : Type*) where
  phase : ι → Phase
  volume : Volume

section

variable {ι : Type*} [DecidableEq ι] (P : Primitives) (masterKey : Option Key)
  (sha256 : Bytes → Digest) (base : String) (ws : ι → Writer)

/-- One request makes its next call. -/
def step (s : System ι) (i : ι) : System ι :=
  let (phase, v) := advance P masterKey sha256 base (ws i) (s.phase i) s.volume
  ⟨Function.update s.phase i phase, v⟩

end

def initial {ι : Type*} (ws : ι → Writer) (t : Target) : System ι :=
  ⟨fun i => (ws i).begin, .ofTarget t⟩

/-- At a rename, the secrets the request keeps are as it read them. At a sidecar, the request's
own file is published, or another request that renamed has yet to write its sidecar. -/
def Undisturbed {ι : Type*} (ws : ι → Writer) (s : System ι) (i : ι) : Prop :=
  match s.phase i with
  | .publishing prev _ => (ws i).SameKept prev s.volume.contents
  | .recording sent =>
    s.volume.contents = some sent ∨ ∃ j other, j ≠ i ∧ s.phase j = .recording other
  | _ => True

/-- The request is about to record its digest. -/
def Phase.isRecording : Phase → Bool
  | .recording _ => true
  | _ => false

theorem Phase.isRecording_iff {phase : Phase} :
    phase.isRecording = true ↔ ∃ sent, phase = .recording sent := by
  cases phase <;> simp [isRecording]

instance {ι : Type*} [Fintype ι] [DecidableEq ι] (ws : ι → Writer) (s : System ι) (i : ι) :
    Decidable (Undisturbed ws s i) := by
  unfold Undisturbed
  exact match s.phase i with
  | .publishing prev _ => inferInstanceAs (Decidable ((ws i).SameKept prev s.volume.contents))
  | .recording sent =>
    decidable_of_iff
      (s.volume.contents = some sent ∨ ∃ j, j ≠ i ∧ (s.phase j).isRecording = true)
      (by simp [Phase.isRecording_iff])
  | .start | .read _ | .creating _ _ | .writing _ _ _ _ | .cleaning | .done _ => isTrue trivial

variable {P : Primitives} {masterKey : Option Key} {sha256 : Bytes → Digest} {base : String}
  {w : Writer} {prev : Option Bytes} {t : Target} {v : Volume} {b sent : Bytes} {phase : Phase}

/-! ## Phases -/

namespace Phase

/-- The request has its staging file open, or is about to rename it. -/
def Open : Phase → Prop
  | writing _ _ _ _ => True
  | publishing _ _ => True
  | _ => False

def Failed : Phase → Prop
  | cleaning => True
  | done reply => reply.status ≠ 201
  | _ => False

/-- The request has renamed its file. -/
def Renamed : Phase → Prop
  | recording _ => True
  | done reply => reply.status = 201
  | _ => False

def Recording : Phase → Prop
  | recording _ => True
  | _ => False

end Phase

/-- A request's own part of the invariant: what it will have sent is what it stores over the
file it read, and while it has the staging file open nothing else is in it. -/
def Fits (P : Primitives) (masterKey : Option Key) (w : Writer) (v : Volume) : Phase → Prop
  | .creating prev src => w.source P masterKey prev = .ok src
  | .writing prev fd sent rest => v.part = some fd ∧ v.data fd = sent ∧
      ∃ src, w.source P masterKey prev = .ok src ∧ src.bytes = sent ++ rest.bytes ∧
        (rest.Ends → src.Ends)
  | .publishing prev sent => v.staged = some sent ∧
      ∃ src, w.source P masterKey prev = .ok src ∧ src.bytes = sent ∧ src.Ends
  | _ => True

/-! ## Runs in which some request fails -/

section

variable {ι : Type*} {ws : ι → Writer} {s : System ι} {i j : ι}

/-- Some request has failed or will: two have the staging file open, or one has and it is gone. -/
def Doomed (s : System ι) : Prop :=
  (∃ i, (s.phase i).Failed) ∨ (∃ i j, i ≠ j ∧ (s.phase i).Open ∧ (s.phase j).Open) ∨
    ∃ i, (s.phase i).Open ∧ s.volume.part = none

theorem failed_advance (h : phase.Failed) :
    (advance P masterKey sha256 base w phase v).1.Failed := by
  cases phase with
  | cleaning => simp [advance, Phase.Failed, Reply.error]
  | done reply => exact h
  | start | read | creating | writing | publishing | recording => cases h

/-- A request that has the staging file open keeps it, fails, or renames it away. -/
theorem open_advance (h : phase.Open) :
    (advance P masterKey sha256 base w phase v).1.Failed ∨
      (advance P masterKey sha256 base w phase v).2.part = none ∨
      (advance P masterKey sha256 base w phase v).1.Open := by
  cases phase with
  | writing prev fd sent rest =>
    cases rest with
    | nil => exact Or.inr (Or.inr trivial)
    | cons r rs =>
      simp only [advance]
      cases r.ending with
      | more | eof => exact Or.inr (Or.inr trivial)
      | failed => exact Or.inl trivial
  | publishing prev sent =>
    simp only [advance]
    cases hv : v.rename with
    | none => exact Or.inl trivial
    | some v' => exact Or.inr (Or.inl (Volume.rename_eq_some hv).2.1)
  | start | read | creating | recording | cleaning | done => cases h

/-- Without a staging file, a request that has it open cannot rename it. -/
theorem open_advance_none (h : phase.Open) (hpart : v.part = none) :
    (advance P masterKey sha256 base w phase v).1.Failed ∨
      (advance P masterKey sha256 base w phase v).1.Open ∧
        (advance P masterKey sha256 base w phase v).2.part = none := by
  cases phase with
  | writing prev fd sent rest =>
    cases rest with
    | nil => exact Or.inr ⟨trivial, hpart⟩
    | cons r rs =>
      simp only [advance]
      cases r.ending with
      | more | eof => exact Or.inr ⟨trivial, hpart⟩
      | failed => exact Or.inl trivial
  | publishing prev sent =>
    simp only [advance, Volume.rename_eq_none.mpr hpart]
    exact Or.inl trivial
  | start | read | creating | recording | cleaning | done => cases h

/-- Only creating it brings the staging file back. -/
theorem part_advance_none (hpart : v.part = none) :
    (advance P masterKey sha256 base w phase v).2.part = none ∨
      (advance P masterKey sha256 base w phase v).1.Open := by
  cases phase with
  | creating prev src => exact Or.inr trivial
  | writing prev fd sent rest =>
    cases rest with
    | nil => exact Or.inl hpart
    | cons r rs =>
      simp only [advance]
      cases r.ending <;> exact Or.inl hpart
  | publishing prev sent =>
    simp only [advance, Volume.rename_eq_none.mpr hpart]
    exact Or.inl hpart
  | read prev =>
    simp only [advance]
    cases w.source P masterKey prev <;> exact Or.inl hpart
  | cleaning => exact Or.inl rfl
  | start | recording | done => exact Or.inl hpart

variable [DecidableEq ι]

@[simp] theorem phase_step_self :
    (step P masterKey sha256 base ws s i).phase i =
      (advance P masterKey sha256 base (ws i) (s.phase i) s.volume).1 := by
  simp [step]

theorem phase_step_of_ne (h : j ≠ i) :
    (step P masterKey sha256 base ws s i).phase j = s.phase j := by
  simp [step, h]

theorem Doomed.step (h : Doomed s) : Doomed (step P masterKey sha256 base ws s i) := by
  rcases h with ⟨j, hj⟩ | ⟨j, k, hjk, hj, hk⟩ | ⟨j, hj, hpart⟩
  · -- a failure is final
    refine Or.inl ⟨j, ?_⟩
    by_cases hji : j = i
    · subst hji
      rw [phase_step_self]
      exact failed_advance hj
    · rwa [phase_step_of_ne hji]
  · -- the step of one of the two leaves the other one open
    have hother (a b : ι) (hab : a ≠ b) (ha : (s.phase a).Open) (hb : (s.phase b).Open)
        (hai : a = i) : Doomed (Writers.step P masterKey sha256 base ws s i) := by
      subst hai
      have hb' : ((Writers.step P masterKey sha256 base ws s a).phase b).Open := by
        rwa [phase_step_of_ne hab.symm]
      rcases @open_advance P masterKey sha256 base (ws a) s.volume _ ha with h | h | h
      · exact Or.inl ⟨a, by rwa [phase_step_self]⟩
      · exact Or.inr (Or.inr ⟨b, hb', h⟩)
      · exact Or.inr (Or.inl ⟨a, b, hab, by rwa [phase_step_self], hb'⟩)
    by_cases hji : j = i
    · exact hother j k hjk hj hk hji
    · by_cases hki : k = i
      · exact hother k j hjk.symm hk hj hki
      · refine Or.inr (Or.inl ⟨j, k, hjk, ?_, ?_⟩)
        · rwa [phase_step_of_ne hji]
        · rwa [phase_step_of_ne hki]
  · -- the staging file is gone: the request fails at its rename, or another one creates it again
    by_cases hji : j = i
    · subst hji
      rcases @open_advance_none P masterKey sha256 base (ws j) s.volume _ hj hpart with h | h
      · exact Or.inl ⟨j, by rwa [phase_step_self]⟩
      · exact Or.inr (Or.inr ⟨j, by rw [phase_step_self]; exact h.1, h.2⟩)
    · have hj' : ((Writers.step P masterKey sha256 base ws s i).phase j).Open := by
        rwa [phase_step_of_ne hji]
      rcases @part_advance_none P masterKey sha256 base (ws i) s.volume (s.phase i) hpart
        with h | h
      · exact Or.inr (Or.inr ⟨j, hj', h⟩)
      · exact Or.inr (Or.inl ⟨j, i, hji, hj', by rwa [phase_step_self]⟩)

end

/-! ## Runs in which no request fails -/

section

variable {ι : Type*}

/-- The files after some requests, one after another. -/
def handleAll (P : Primitives) (masterKey : Option Key) (sha256 : Bytes → Digest) (base : String)
    (ws : ι → Writer) (order : List ι) (t : Target) : Target :=
  order.foldl (fun t i => ((ws i).handle P masterKey sha256 base t).2) t

/-- The requests use the staging file in turn, what is published is what those that renamed give
one after another, and the sidecar is right once every digest is recorded. -/
structure Clean (P : Primitives) (masterKey : Option Key) (sha256 : Bytes → Digest)
    (base : String) (ws : ι → Writer) (t : Target) (s : System ι) : Prop where
  alone : ∀ i j, (s.phase i).Open → (s.phase j).Open → i = j
  fits : ∀ i, Fits P masterKey (ws i) s.volume (s.phase i)
  serial : ∃ order : List ι, order.Nodup ∧ (∀ i, i ∈ order ↔ (s.phase i).Renamed) ∧
    s.volume.contents = (handleAll P masterKey sha256 base ws order t).file
  recorded : (∃ i, (s.phase i).Renamed) → ∃ b, s.volume.contents = some b ∧
    ((∀ i, ¬ (s.phase i).Recording) → Recorded sha256 b s.volume.target)

variable {ws : ι → Writer} {s : System ι} {i : ι} {phase' : Phase} {v' : Volume}

/-- A request without the staging file open depends on no file. -/
theorem fits_of_not_open (hopen : ¬ phase.Open) (h : Fits P masterKey w v phase) :
    Fits P masterKey w v' phase := by
  cases phase with
  | writing | publishing => exact absurd trivial hopen
  | start | read | creating | recording | cleaning | done => exact h

theorem clean_initial (ws : ι → Writer) (t : Target) :
    Clean P masterKey sha256 base ws t (initial ws t) := by
  have hbegin (i : ι) : ¬ (ws i).begin.Open ∧ ¬ (ws i).begin.Renamed := by
    cases ws i <;> exact ⟨id, id⟩
  refine ⟨fun i _ hi => absurd hi (hbegin i).1, fun i => ?_, ⟨[], by simp, fun i => ?_, ?_⟩, ?_⟩
  · unfold initial
    dsimp only
    cases ws i <;> trivial
  · simp only [List.not_mem_nil, false_iff]
    exact (hbegin i).2
  · exact Volume.contents_ofTarget
  · rintro ⟨i, hi⟩
    exact absurd hi (hbegin i).2

variable [DecidableEq ι]

/-- A step that does not decide a property of its own phase decides it of none. -/
theorem update_iff {f : ι → Phase} {Q : Phase → Prop} (hQ : Q phase' ↔ Q (f i)) (j : ι) :
    Q (Function.update f i phase' j) ↔ Q (f j) := by
  by_cases hj : j = i
  · rw [hj, Function.update_self, hQ]
  · rw [Function.update_of_ne hj]

/-- A call that changes neither the published file nor its sidecar. -/
theorem Clean.frame (h : Clean P masterKey sha256 base ws t s)
    (hcontents : v'.contents = s.volume.contents) (hsidecar : v'.sidecar = s.volume.sidecar)
    (hrenamed : phase'.Renamed ↔ (s.phase i).Renamed)
    (hrecording : phase'.Recording ↔ (s.phase i).Recording)
    (hfits : Fits P masterKey (ws i) v' phase')
    (halone : phase'.Open → ∀ j, j ≠ i → ¬ (s.phase j).Open)
    (hothers : ∀ j, j ≠ i → Fits P masterKey (ws j) v' (s.phase j)) :
    Clean P masterKey sha256 base ws t ⟨Function.update s.phase i phase', v'⟩ := by
  refine ⟨fun a b ha hb => ?_, fun j => ?_, ?_, fun hsome => ?_⟩
  · -- the request that made the call, or the two are others
    dsimp only at ha hb
    by_cases hai : a = i <;> by_cases hbi : b = i
    · rw [hai, hbi]
    · rw [hai, Function.update_self] at ha
      rw [Function.update_of_ne hbi] at hb
      exact absurd hb (halone ha b hbi)
    · rw [hbi, Function.update_self] at hb
      rw [Function.update_of_ne hai] at ha
      exact absurd ha (halone hb a hai)
    · rw [Function.update_of_ne hai] at ha
      rw [Function.update_of_ne hbi] at hb
      exact h.alone a b ha hb
  · by_cases hj : j = i
    · subst hj
      simpa only [Function.update_self] using hfits
    · simpa only [Function.update_of_ne hj] using hothers j hj
  · obtain ⟨order, hnodup, hmem, hserial⟩ := h.serial
    exact ⟨order, hnodup, fun j => (hmem j).trans (update_iff hrenamed j).symm,
      hcontents.trans hserial⟩
  · obtain ⟨b, hb, hrecorded⟩ :=
      h.recorded (hsome.imp fun j hj => (update_iff hrenamed j).mp hj)
    refine ⟨b, hcontents.trans hb, fun hall => ?_⟩
    change readSidecar v'.sidecar = _
    rw [hsidecar]
    exact hrecorded fun j hj => hall j ((update_iff hrecording j).mpr hj)

/-- A call of a request that writes: only its own staging file changes, and nobody else has it
open. -/
theorem Clean.write {fd : Ino} {rest : Stream} (h : Clean P masterKey sha256 base ws t s)
    (hphase : s.phase i = .writing prev fd sent rest)
    (hself : ¬ (advance P masterKey sha256 base (ws i) (s.phase i) s.volume).1.Failed) :
    Clean P masterKey sha256 base ws t (step P masterKey sha256 base ws s i) := by
  have hfits := h.fits i
  rw [hphase] at hfits
  obtain ⟨hpart, rfl, src, hsource, hbytes, hends⟩ := hfits
  have hclosed (j : ι) (hji : j ≠ i) : ¬ (s.phase j).Open := by
    refine fun hj => hji (h.alone j i hj ?_)
    rw [hphase]
    trivial
  simp only [Writers.step, hphase]
  cases rest with
  | nil =>
    simp only [advance]
    refine h.frame rfl rfl (by rw [hphase]; rfl) (by rw [hphase]; rfl) ⟨?_, src, hsource, ?_,
      hends trivial⟩ (fun _ => hclosed) (fun j _ => h.fits j)
    · rw [Volume.staged, hpart, Option.map_some]
    · rw [hbytes, Stream.bytes_nil, List.append_nil]
  | cons r rs =>
    have hcontents := @Volume.contents_append s.volume fd r.data hpart
    have hwritten : (s.volume.append fd r.data).data fd = s.volume.data fd ++ r.data := by
      rw [Volume.data_append, Function.update_self]
    have hothers (j : ι) (hji : j ≠ i) :
        Fits P masterKey (ws j) (s.volume.append fd r.data) (s.phase j) :=
      fits_of_not_open (hclosed j hji) (h.fits j)
    rw [Stream.bytes] at hbytes
    simp only [hphase, advance, Volume.writeAt_length] at hself ⊢
    cases hending : r.ending with
    | more =>
      dsimp only
      rw [if_pos hending, ← List.append_assoc] at hbytes
      exact h.frame hcontents rfl (by rw [hphase]; rfl) (by rw [hphase]; rfl)
        ⟨hpart, hwritten, src, hsource, hbytes, fun hrest => hends (Or.inr ⟨hending, hrest⟩)⟩
        (fun _ => hclosed) hothers
    | eof =>
      dsimp only
      rw [if_neg (by simp [hending])] at hbytes
      refine h.frame hcontents rfl (by rw [hphase]; rfl) (by rw [hphase]; rfl)
        ⟨?_, src, hsource, hbytes, hends (Or.inl hending)⟩ (fun _ => hclosed) hothers
      rw [Volume.staged_append hpart]
    | failed =>
      simp only [hending] at hself
      exact absurd trivial hself

/-- A rename publishes what the request stores over the file that is published now. -/
theorem Clean.publish (h : Clean P masterKey sha256 base ws t s)
    (hphase : s.phase i = .publishing prev sent) (hkept : (ws i).SameKept prev s.volume.contents)
    (hv' : s.volume.rename = some v') :
    Clean P masterKey sha256 base ws t ⟨Function.update s.phase i (.recording sent), v'⟩ := by
  have hfits := h.fits i
  rw [hphase] at hfits
  obtain ⟨hstaged, src, hsource, rfl, hends⟩ := hfits
  obtain ⟨hcontents, -, -⟩ := Volume.rename_eq_some hv'
  have hopen : (s.phase i).Open := by
    rw [hphase]
    trivial
  -- the request was the only one to have the staging file open, and closes it
  have hclosed (j : ι) : ¬ (Function.update s.phase i (.recording src.bytes) j).Open := by
    by_cases hj : j = i
    · rw [hj, Function.update_self]
      exact id
    · rw [Function.update_of_ne hj]
      exact fun hopen' => hj (h.alone j i hopen' hopen)
  refine ⟨fun a _ ha => absurd ha (hclosed a), fun j => ?_, ?_, fun _ => ?_⟩
  · by_cases hj : j = i
    · subst hj
      simp only [Function.update_self]
      trivial
    · have hfits : Fits P masterKey (ws j) s.volume
          (Function.update s.phase i (.recording src.bytes) j) := by
        simpa only [Function.update_of_ne hj] using h.fits j
      exact fits_of_not_open (hclosed j) hfits
  · obtain ⟨order, hnodup, hmem, hserial⟩ := h.serial
    have hi : i ∉ order := by
      rw [hmem i, hphase]
      exact id
    refine ⟨order ++ [i], ?_, fun j => ?_, ?_⟩
    · exact hnodup.append (List.nodup_singleton i) (List.disjoint_singleton.mpr hi)
    · rw [List.mem_append, hmem j, List.mem_singleton]
      dsimp only
      by_cases hj : j = i
      · subst hj
        simp only [Function.update_self, or_true, true_iff]
        trivial
      · rw [Function.update_of_ne hj, or_iff_left hj]
    · -- the request is handled last
      have hsource' : (ws i).source P masterKey
          (handleAll P masterKey sha256 base ws order t).file = .ok src := by
        rw [← hserial, ← source_congr hkept, hsource]
      have hlast : handleAll P masterKey sha256 base ws (order ++ [i]) t =
          ((ws i).handle P masterKey sha256 base
            (handleAll P masterKey sha256 base ws order t)).2 := by
        rw [handleAll, List.foldl_append]
        rfl
      rw [hlast, handle_of_source hsource' hends]
      exact hcontents.trans hstaged
  · refine ⟨src.bytes, hcontents.trans hstaged, fun hall => absurd ?_ (hall i)⟩
    simp only [Function.update_self]
    trivial

theorem fits_setSidecar : Fits P masterKey w (v.setSidecar b) phase ↔
    Fits P masterKey w v phase := by
  cases phase <;> rfl

/-- A digest is recorded while the file is published, or another will be recorded after it. -/
theorem Clean.record (h : Clean P masterKey sha256 base ws t s)
    (hphase : s.phase i = .recording sent)
    (hcurrent : s.volume.contents = some sent ∨
      ∃ j other, j ≠ i ∧ s.phase j = .recording other) :
    Clean P masterKey sha256 base ws t ⟨Function.update s.phase i (.done (.send 201)),
      s.volume.setSidecar (sidecarLine base (sha256 sent))⟩ := by
  have hopen (j : ι) (hj : (Function.update s.phase i (.done (.send 201)) j).Open) :
      (s.phase j).Open := by
    by_cases hji : j = i
    · rw [hji, Function.update_self] at hj
      cases hj
    · rwa [Function.update_of_ne hji] at hj
  have hrenamed (j : ι) : (Function.update s.phase i (.done (.send 201)) j).Renamed ↔
      (s.phase j).Renamed := by
    refine update_iff ?_ j
    rw [hphase]
    exact iff_of_true rfl trivial
  refine ⟨fun a b ha hb => h.alone a b (hopen a ha) (hopen b hb), fun j => ?_, ?_, ?_⟩
  · rw [fits_setSidecar]
    dsimp only
    by_cases hji : j = i
    · rw [hji, Function.update_self]
      trivial
    · rw [Function.update_of_ne hji]
      exact h.fits j
  · obtain ⟨order, hnodup, hmem, hserial⟩ := h.serial
    exact ⟨order, hnodup, fun j => (hmem j).trans (hrenamed j).symm, hserial⟩
  · rintro ⟨j, hj⟩
    obtain ⟨b, hb, -⟩ := h.recorded ⟨j, (hrenamed j).mp hj⟩
    refine ⟨b, hb, fun hall => ?_⟩
    -- nobody else has a digest left to record, so this one is of what is published
    have hpublished : s.volume.contents = some sent := by
      apply hcurrent.resolve_right
      rintro ⟨j, other, hji, hj⟩
      apply hall j
      dsimp only
      rw [Function.update_of_ne hji, hj]
      trivial
    obtain rfl : sent = b := Option.some.inj (hpublished.symm.trans hb)
    exact readSidecar_sidecarLine (sha256 sent)

/-- **One call** of a run in which no request fails. -/
theorem Clean.step (h : Clean P masterKey sha256 base ws t s)
    (hnot : ¬ Doomed (step P masterKey sha256 base ws s i)) (hcond : Undisturbed ws s i) :
    Clean P masterKey sha256 base ws t (step P masterKey sha256 base ws s i) := by
  have hfits := h.fits i
  have hself : ¬ ((Writers.step P masterKey sha256 base ws s i).phase i).Failed :=
    fun hfailed => hnot (Or.inl ⟨i, hfailed⟩)
  -- nobody else has the staging file open while this request does
  have hothers : ((Writers.step P masterKey sha256 base ws s i).phase i).Open →
      ∀ j, j ≠ i → ¬ (s.phase j).Open := by
    intro hi j hji hj
    refine hnot (Or.inr (Or.inl ⟨j, i, hji, ?_, hi⟩))
    rwa [phase_step_of_ne hji]
  rw [phase_step_self] at hself hothers
  unfold Undisturbed at hcond
  simp only [Writers.step]
  cases hphase : s.phase i with
  | start =>
    simp only [hphase, advance] at hothers ⊢
    exact h.frame rfl rfl (by rw [hphase]; rfl) (by rw [hphase]; rfl) trivial hothers
      (fun j _ => h.fits j)
  | read prev =>
    cases hsource : (ws i).source P masterKey prev with
    | error reply =>
      -- a request that cannot store anything is answered with an error
      simp only [hphase, advance, hsource] at hself
      have hstatus := source_error hsource
      exact absurd (by simp [Phase.Failed, hstatus]) hself
    | ok src =>
      simp only [hphase, advance, hsource] at hothers ⊢
      exact h.frame rfl rfl (by rw [hphase]; rfl) (by rw [hphase]; rfl) hsource hothers
        (fun j _ => h.fits j)
  | creating prev src =>
    -- truncating the staging file disturbs nobody, since nobody has it open
    obtain ⟨hpart, hdata, hcontents, hsidecar⟩ := s.volume.createPart_spec
    simp only [hphase, advance] at hothers hfits ⊢
    exact h.frame hcontents hsidecar (by rw [hphase]; rfl) (by rw [hphase]; rfl)
      ⟨hpart, hdata, src, hfits, rfl, id⟩ hothers
      (fun j hji => fits_of_not_open (hothers trivial j hji) (h.fits j))
  | writing prev fd sent rest =>
    simp only [← hphase]
    exact h.write hphase hself
  | publishing prev sent =>
    rw [hphase] at hcond
    cases hv' : s.volume.rename with
    | none =>
      simp only [hphase, advance, hv'] at hself
      exact absurd trivial hself
    | some v' =>
      simp only [advance, hv']
      exact h.publish hphase hcond hv'
  | recording sent =>
    rw [hphase] at hcond
    exact h.record hphase hcond
  | cleaning =>
    simp only [hphase, advance] at hself
    exact absurd (by simp [Phase.Failed, Reply.error]) hself
  | done reply =>
    simp only [advance, ← hphase, Function.update_eq_self]
    exact h

/-- In every run under the condition some request fails, or what is published is what the
requests that renamed give one after another. -/
theorem run_clean (schedule : List ι)
    (h : Along (step P masterKey sha256 base ws) (Undisturbed ws) schedule (initial ws t)) :
    Doomed (run (step P masterKey sha256 base ws) schedule (initial ws t)) ∨
      Clean P masterKey sha256 base ws t
        (run (step P masterKey sha256 base ws) schedule (initial ws t)) := by
  have hstep : ∀ s i, (Doomed s ∨ Clean P masterKey sha256 base ws t s) → Undisturbed ws s i →
      (Doomed (step P masterKey sha256 base ws s i) ∨
        Clean P masterKey sha256 base ws t (step P masterKey sha256 base ws s i)) := by
    rintro s i (hdoomed | hclean) hcond
    · exact Or.inl hdoomed.step
    · by_cases hnot : Doomed (step P masterKey sha256 base ws s i)
      · exact Or.inl hnot
      · exact Or.inr (hclean.step hnot hcond)
  exact h.invariant hstep (Or.inr (clean_initial ws t))

end

/-- Nothing has failed or will fail once every request is answered 201. -/
theorem not_doomed {ι : Type*} {s : System ι} (hdone : ∀ i, s.phase i = .done (.send 201)) :
    ¬ Doomed s := by
  rintro (⟨i, hi⟩ | ⟨i, _, _, hi, _⟩ | ⟨i, hi, _⟩) <;> rw [hdone i] at hi
  -- such a request has not failed, and has nothing open
  · exact hi rfl
  · exact hi
  · exact hi

/-- The orders of two requests. -/
theorem eq_pair_of_nodup {order : List Bool} (hnodup : order.Nodup) (hmem : ∀ i, i ∈ order) :
    ∃ i, order = [i, !i] := by
  have hperm : order.Perm [false, true] :=
    (List.perm_ext_iff_of_nodup hnodup (by decide)).mpr fun i => by simp [hmem i]
  obtain ⟨i, j, rfl⟩ := List.length_eq_two.mp hperm.length_eq
  have hne : i ≠ j := by simpa using hnodup
  exact ⟨i, by rw [Bool.eq_not_of_ne hne.symm]⟩

/-- **Two writers.** In every run under the condition in which both requests are answered 201,
the published file is what they give one after the other, and the sidecar records its digest. -/
theorem run_serializable (P : Primitives) (masterKey : Option Key) (sha256 : Bytes → Digest)
    (base : String) (ws : Bool → Writer) (t : Target) (schedule : List Bool)
    (h : Along (step P masterKey sha256 base ws) (Undisturbed ws) schedule (initial ws t))
    (hdone : ∀ i, (run (step P masterKey sha256 base ws) schedule (initial ws t)).phase i =
      .done (.send 201)) :
    ∃ i b, (run (step P masterKey sha256 base ws) schedule (initial ws t)).volume.contents =
          some b ∧
        ((ws !i).handle P masterKey sha256 base
          ((ws i).handle P masterKey sha256 base t).2).2.file = some b ∧
        Recorded sha256 b
          (run (step P masterKey sha256 base ws) schedule (initial ws t)).volume.target := by
  have hclean := (run_clean schedule h).resolve_left (not_doomed hdone)
  obtain ⟨order, hnodup, hmem, hserial⟩ := hclean.serial
  have hrenamed (i : Bool) : ((run (step P masterKey sha256 base ws) schedule
      (initial ws t)).phase i).Renamed := by
    rw [hdone i]
    rfl
  obtain ⟨i, rfl⟩ := eq_pair_of_nodup hnodup fun i => (hmem i).mpr (hrenamed i)
  obtain ⟨b, hb, hrecorded⟩ := hclean.recorded ⟨i, hrenamed i⟩
  refine ⟨i, b, hb, hserial.symm.trans hb, hrecorded fun j => ?_⟩
  rw [hdone j]
  exact id

/-- A request of the system that runs alone does what the handler does. -/
theorem run_alone {ι : Type*} [DecidableEq ι] (P : Primitives) (masterKey : Option Key)
    (sha256 : Bytes → Digest) (base : String) (ws : ι → Writer) (i : ι) (t : Target) :
    ∃ k, (run (step P masterKey sha256 base ws) (List.replicate k i) (initial ws t)).phase i =
        .done ((ws i).handle P masterKey sha256 base t).1 ∧
      (run (step P masterKey sha256 base ws) (List.replicate k i)
        (initial ws t)).volume.target = ((ws i).handle P masterKey sha256 base t).2 := by
  obtain ⟨v', ⟨k, hk⟩, hv'⟩ := leads_handle P masterKey sha256 base (ws i) t
  have hview (s : System ι) : ((step P masterKey sha256 base ws s i).phase i,
      (step P masterKey sha256 base ws s i).volume) =
        alone P masterKey sha256 base (ws i) (s.phase i, s.volume) := by
    simp [step, alone]
  have hrun := run_replicate (fun s : System ι => (s.phase i, s.volume)) hview k (initial ws t)
  obtain ⟨hphase, hvolume⟩ := Prod.mk.inj (hrun.trans hk)
  exact ⟨k, hphase, hvolume ▸ hv'⟩

/-! ## Two runs -/

def Phase.reply? : Phase → Option Reply
  | .done reply => some reply
  | _ => none

theorem eq_done_of_reply? {reply : Reply} (h : phase.reply? = some reply) :
    phase = .done reply := by
  cases phase <;> simp_all [Phase.reply?]

/-- The text of a config. -/
def blockText (members : String) : Bytes :=
  Utf8.encode ("\x7b\"unattend\":\x7b" ++ members ++ "\x7d\x7d").toList

/-- Two configs that keep the password, one with a time zone beside it. -/
def twoKeepers (i : Bool) : Writer :=
  .config sampleIVs (.ofBytes (blockText (if i then "\"LOCALADMINPASS\":\"__KEEP__\""
    else "\"LOCALADMINPASS\":\"__KEEP__\",\"TIMEZONE\":\"UTC\"")))

/-- A config that is stored with a password. -/
def withPassword : Target := ⟨some (blockText "\"LOCALADMINPASS\":\"hunter2\""), none, none⟩

/-- Both requests read the config before either of them writes. -/
def readTogether : List Bool :=
  [false, true, false, true] ++ List.replicate 5 false ++ List.replicate 5 true

theorem run_serializable_sample :
    ∃ i b, (run (step default none sampleDigest "default.json" twoKeepers) readTogether
          (initial twoKeepers withPassword)).volume.contents = some b ∧
      ((twoKeepers !i).handle default none sampleDigest "default.json"
        ((twoKeepers i).handle default none sampleDigest "default.json" withPassword).2).2.file =
          some b ∧
      Recorded sampleDigest b (run (step default none sampleDigest "default.json" twoKeepers)
        readTogether (initial twoKeepers withPassword)).volume.target :=
  run_serializable default none sampleDigest "default.json" twoKeepers withPassword readTogether
    (by decide +kernel) fun i => eq_done_of_reply? (by revert i; decide +kernel)

/-- A config whose password is typed, and one that keeps the password. -/
def twoPasswords (i : Bool) : Writer :=
  .config sampleIVs (.ofBytes (Utf8.encode ("\x7b\"unattend\":\x7b\"LOCALADMINPASS\":\"".toList ++
    (if i then "__KEEP__" else "hunter2").toList ++ "\"\x7d\x7d".toList)))

/-- The keeping request reads before the other one writes, and writes after it. -/
def readEarly : List Bool := [true] ++ List.replicate 7 false ++ List.replicate 6 true

/-- Both requests succeed and the typed password is lost, which no order of the two explains. -/
theorem typed_password_lost :
    (∀ i, (run (step default none sampleDigest "default.json" twoPasswords) readEarly
        (initial twoPasswords Target.absent)).phase i = .done (.send 201)) ∧
      ¬ ∃ i, (run (step default none sampleDigest "default.json" twoPasswords) readEarly
          (initial twoPasswords Target.absent)).volume.contents =
        ((twoPasswords !i).handle default none sampleDigest "default.json"
          ((twoPasswords i).handle default none sampleDigest "default.json"
            Target.absent).2).2.file := by
  refine ⟨fun i => eq_done_of_reply? ?_, ?_⟩
  · revert i
    decide +kernel
  · decide +kernel

end WinDep.Writers
