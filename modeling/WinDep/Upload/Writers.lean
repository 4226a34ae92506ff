/-
# Writing a whole file, call by call

A config request reads the previous file, computes what to store and writes it as a
plain upload writes its body: to the one staging file of the path, renamed onto
the published file, and then the sidecar. A request whose calls are not
interrupted does what its handler does.
-/

import WinDep.Config.Store
import WinDep.Data.Runs
import WinDep.Files.Volume
import WinDep.Upload.Handlers

namespace WinDep.Writers

open Admin Json Runs

/-! ## One request, call by call -/

inductive Writer
  | config (ivs : String → IV) (body : Stream)
  | plain (body : Stream)

/-- How far a request has come, with the previous file it read and what it has sent. -/
inductive Phase
  | start
  | read (prev : Option Bytes)
  | creating (prev : Option Bytes) (src : Stream)
  | writing (prev : Option Bytes) (fd : Ino) (sent : Bytes) (rest : Stream)
  | publishing (prev : Option Bytes) (sent : Bytes)
  | recording (sent : Bytes)
  | cleaning
  | done (reply : Reply)

/-- A plain upload does not read the previous file. -/
def Writer.begin : Writer → Phase
  | .config _ _ => .start
  | .plain body => .creating none body

section

variable (P : Primitives) (masterKey : Option Key) (sha256 : Bytes → Digest) (base : String)

/-- What a request stores over a previous file, or the error it answers. -/
def Writer.source (w : Writer) (prev : Option Bytes) : Except Reply Stream :=
  match w with
  | .config ivs body =>
    match readBody body maxBody with
    | none => .error (.error 400 "read failed")
    | some raw =>
      match encryptConfigJSON P masterKey ivs raw (prev.getD []) with
      | none => .error (.error 400 "invalid config json")
      | some out => .ok (.ofBytes out)
  | .plain body => .ok body

/-- The handler of a request where no call fails. -/
def Writer.handle (w : Writer) (t : Target) : Reply × Target :=
  match w with
  | .config ivs body => putConfig P masterKey sha256 Faults.none ivs base body t
  | .plain body => putFile base Faults.none sha256 body t

/-- The next call of a request. -/
def advance (w : Writer) : Phase → Volume → Phase × Volume
  | .start, v => (.read v.contents, v)
  | .read prev, v =>
    match w.source P masterKey prev with
    | .error reply => (.done reply, v)
    | .ok src => (.creating prev src, v)
  | .creating prev src, v =>
    let (fd, v) := v.createPart
    (.writing prev fd [] src, v)
  | .writing prev _ sent [], v => (.publishing prev sent, v)
  | .writing prev fd sent (r :: rs), v =>
    -- a descriptor keeps its position, also when the file is truncated under it
    let v := v.writeAt fd sent.length r.data
    let sent := sent ++ r.data
    match r.ending with
    | .more => (.writing prev fd sent rs, v)
    | .eof => (.publishing prev sent, v)
    | .failed => (.cleaning, v)
  | .publishing _ sent, v =>
    match v.rename with
    | none => (.cleaning, v)
    | some v => (.recording sent, v)
  | .recording sent, v =>
    (.done (.send 201), v.setSidecar (sidecarLine base (sha256 sent)))
  -- the deferred removal, whichever call failed
  | .cleaning, v => (.done (.error 500 "write failed"), v.removePart)
  | .done reply, v => (.done reply, v)

end

/-! ## What a request keeps -/

/-- The secrets that a config keeps have the same values in both files. -/
def Writer.SameKept (w : Writer) (prev now : Option Bytes) : Prop :=
  match w with
  | .config _ body =>
    ∀ raw cfg un, readBody body maxBody = some raw → unmarshal (trimBOM raw) = some cfg →
      cfg.unattend = some un → ∀ k, isSecretField k = true →
        un.lookup k = some (.str keepSentinel) →
          ((prevUnattend (prev.getD [])).lookup k).bind str? =
            ((prevUnattend (now.getD [])).lookup k).bind str?
  | .plain _ => True

/-- The secrets that a config keeps are members of its block. -/
theorem Writer.sameKept_config_iff {ivs : String → IV} {body : Stream} {prev now : Option Bytes} :
    (Writer.config ivs body).SameKept prev now ↔
      ∀ raw ∈ readBody body maxBody, ∀ cfg ∈ unmarshal (trimBOM raw), ∀ un ∈ cfg.unattend,
        ∀ e ∈ un.members, isSecretField e.1 = true → e.2.str? = some keepSentinel →
          ((prevUnattend (prev.getD [])).lookup e.1).bind str? =
            ((prevUnattend (now.getD [])).lookup e.1).bind str? := by
  constructor
  · rintro h raw hraw cfg hcfg un hun ⟨k, v⟩ he hk hv
    obtain rfl := str?_eq_some.mp hv
    exact h raw cfg un hraw hcfg hun k hk (KeyedList.lookup_of_mem un.ordered he)
  · intro h raw cfg un hraw hcfg hun k hk hkeep
    exact h raw hraw cfg hcfg un hun _ (KeyedList.mem_of_lookup_eq_some hkeep) hk rfl

instance (w : Writer) (prev now : Option Bytes) : Decidable (w.SameKept prev now) :=
  match w with
  | .config _ _ => decidable_of_iff' _ Writer.sameKept_config_iff
  | .plain _ => isTrue trivial

/-! ## What a request stores -/

variable {P : Primitives} {masterKey : Option Key} {sha256 : Bytes → Digest} {base : String}
  {w : Writer} {prev now : Option Bytes} {src : Stream} {t : Target} {v : Volume} {fd : Ino}
  {b sent : Bytes} {phase : Phase}

theorem source_congr (h : w.SameKept prev now) :
    w.source P masterKey prev = w.source P masterKey now := by
  cases w with
  | plain body => rfl
  | config ivs body =>
    simp only [Writer.source]
    cases hraw : readBody body maxBody with
    | none => rfl
    | some raw =>
      have hout : encryptConfigJSON P masterKey ivs raw (prev.getD []) =
          encryptConfigJSON P masterKey ivs raw (now.getD []) := by
        rw [encryptConfigJSON, encryptConfigJSON]
        apply Option.map_congr
        intro cfg hcfg
        rw [storeConfig_congr fun un hun k hk hkeep =>
          congrArg (Option.getD · "") (h raw cfg un hraw hcfg hun k hk hkeep)]
      simp only [hout]

theorem source_error {reply : Reply} (h : w.source P masterKey prev = .error reply) :
    reply.status = 400 := by
  unfold Writer.source at h
  repeat' split at h
  all_goals cases h
  all_goals rfl

/-- The handler stores what the request gives over the previous file. -/
theorem handle_eq (w : Writer) (t : Target) :
    w.handle P masterKey sha256 base t =
      match w.source P masterKey t.file with
      | .error reply => (reply, t)
      | .ok src =>
        if src.Ends then
          (.send 201, ⟨some src.bytes, none, some (sidecarLine base (sha256 src.bytes))⟩)
        else (.error 500 "write failed", { t with part := none }) := by
  have hput (src : Stream) : putFile base Faults.none sha256 src t =
      if src.Ends then
        (.send 201, ⟨some src.bytes, none, some (sidecarLine base (sha256 src.bytes))⟩)
      else (.error 500 "write failed", { t with part := none }) := by
    rw [putFile, if_neg (by decide), saveStream_none]
    by_cases hends : src.Ends
    · rw [if_pos hends, if_pos hends]
      rfl
    · rw [if_neg hends, if_neg hends]
  cases w with
  | plain body => exact hput body
  | config ivs body =>
    rw [Writer.handle, putConfig, Writer.source]
    cases readBody body maxBody with
    | none => rfl
    | some raw =>
      dsimp only
      cases encryptConfigJSON P masterKey ivs raw (t.file.getD []) with
      | none => rfl
      | some out => exact hput (.ofBytes out)

theorem handle_of_source (h : w.source P masterKey t.file = .ok src) (hends : src.Ends) :
    w.handle P masterKey sha256 base t =
      (.send 201, ⟨some src.bytes, none, some (sidecarLine base (sha256 src.bytes))⟩) := by
  rw [handle_eq, h]
  exact if_pos hends

/-! ## A request that runs alone -/

/-- The step of a request that is never interrupted. -/
def alone (P : Primitives) (masterKey : Option Key) (sha256 : Bytes → Digest) (base : String)
    (w : Writer) (p : Phase × Volume) : Phase × Volume :=
  advance P masterKey sha256 base w p.1 p.2

/-- The writes of a request put the whole stream into its file, up to where it fails. -/
theorem leads_writing (rest : Stream) (hpart : v.part = some fd) (hdata : v.data fd = sent) :
    Leads (alone P masterKey sha256 base w) (.writing prev fd sent rest, v)
      (if rest.Ends then .publishing prev (sent ++ rest.bytes) else .cleaning,
        v.append fd rest.bytes) := by
  -- while nobody interferes, the position is where the file ends
  induction rest generalizing sent v with
  | nil =>
    apply Leads.head
    simpa [alone, advance] using Leads.refl _
  | cons r rs ih =>
    subst hdata
    apply Leads.head
    cases hending : r.ending with
    | more =>
      have hnext := @ih (v.append fd r.data) (v.data fd ++ r.data) hpart (by simp)
      rw [Volume.append_append, List.append_assoc] at hnext
      simpa [alone, advance, hending, Volume.writeAt_length, Stream.bytes, Stream.Ends] using hnext
    | eof =>
      simpa [alone, advance, hending, Volume.writeAt_length, Stream.bytes, Stream.Ends] using
        Leads.refl _
    | failed =>
      simpa [alone, advance, hending, Volume.writeAt_length, Stream.bytes, Stream.Ends] using
        Leads.refl _

/-- A request with a stream to store stores it, or removes what it wrote. -/
theorem leads_creating (P : Primitives) (masterKey : Option Key) (sha256 : Bytes → Digest)
    (base : String) (w : Writer) (prev : Option Bytes) (src : Stream) (v : Volume) :
    ∃ v', Leads (alone P masterKey sha256 base w) (.creating prev src, v)
        (.done (if src.Ends then .send 201 else .error 500 "write failed"), v') ∧
      v'.target = if src.Ends then
        ⟨some src.bytes, none, some (sidecarLine base (sha256 src.bytes))⟩
      else { v.target with part := none } := by
  obtain ⟨hpart, hdata, hcontents, hsidecar⟩ := v.createPart_spec
  obtain ⟨⟨fd, u⟩, hcreate⟩ : ∃ p, v.createPart = p := ⟨_, rfl⟩
  rw [hcreate] at hpart hdata hcontents hsidecar
  have hcreating : Leads (alone P masterKey sha256 base w) (.creating prev src, v)
      (.writing prev fd [] src, u) := by
    apply Leads.head
    simpa [alone, advance, hcreate] using Leads.refl _
  have hwriting := hcreating.trans (leads_writing src hpart hdata)
  have hcontents' := (@Volume.contents_append u fd src.bytes hpart).trans hcontents
  by_cases hends : src.Ends
  · -- renamed, and the digest of what was sent recorded
    rw [if_pos hends, List.nil_append] at hwriting
    obtain ⟨v', hv', -⟩ := @Volume.rename_of_part (u.append fd src.bytes) fd hpart
    obtain ⟨hpublished, hnone, -⟩ := Volume.rename_eq_some hv'
    refine ⟨v'.setSidecar (sidecarLine base (sha256 src.bytes)),
      hwriting.trans (Leads.head (Leads.head ?_)), ?_⟩
    · simpa [alone, advance, hv', hends] using Leads.refl _
    · rw [if_pos hends]
      change (⟨v'.contents, v'.staged, _⟩ : Target) = _
      rw [hpublished, Volume.staged_append hpart, hdata, Volume.staged, hnone]
      rfl
  · -- the body failed: the staging file is removed again
    rw [if_neg hends] at hwriting
    refine ⟨(u.append fd src.bytes).removePart, hwriting.trans (Leads.head ?_), ?_⟩
    · simpa [alone, advance, hends] using Leads.refl _
    · rw [if_neg hends]
      change (⟨(u.append fd src.bytes).contents, none, u.sidecar⟩ : Target) = _
      rw [hcontents', hsidecar]
      rfl

theorem leads_begin (P : Primitives) (masterKey : Option Key) (sha256 : Bytes → Digest)
    (base : String) (w : Writer) (t : Target) :
    (∀ reply, w.source P masterKey t.file = .error reply →
        Leads (alone P masterKey sha256 base w) (w.begin, .ofTarget t)
          (.done reply, .ofTarget t)) ∧
      ∀ src, w.source P masterKey t.file = .ok src →
        ∃ prev, Leads (alone P masterKey sha256 base w) (w.begin, .ofTarget t)
          (.creating prev src, .ofTarget t) := by
  cases w with
  | plain body =>
    refine ⟨by rintro _ ⟨⟩, ?_⟩
    rintro _ ⟨⟩
    exact ⟨none, Leads.refl _⟩
  | config ivs body =>
    refine ⟨fun reply hsource => Leads.head (Leads.head ?_),
      fun src hsource => ⟨t.file, Leads.head (Leads.head ?_)⟩⟩
    · simpa [alone, advance, Writer.begin, hsource] using Leads.refl _
    · simpa [alone, advance, Writer.begin, hsource] using Leads.refl _

/-- **Running alone.** A request whose calls are not interrupted does what the handler does. -/
theorem leads_handle (P : Primitives) (masterKey : Option Key) (sha256 : Bytes → Digest)
    (base : String) (w : Writer) (t : Target) :
    ∃ v', Leads (alone P masterKey sha256 base w) (w.begin, .ofTarget t)
        (.done (w.handle P masterKey sha256 base t).1, v') ∧
      v'.target = (w.handle P masterKey sha256 base t).2 := by
  obtain ⟨herror, hok⟩ := leads_begin P masterKey sha256 base w t
  rw [handle_eq]
  cases hsource : w.source P masterKey t.file with
  | error reply => exact ⟨.ofTarget t, herror reply hsource, Volume.target_ofTarget t⟩
  | ok src =>
    obtain ⟨prev, hbegin⟩ := hok src hsource
    obtain ⟨v', hv', htarget⟩ :=
      leads_creating P masterKey sha256 base w prev src (.ofTarget t)
    rw [Volume.target_ofTarget] at htarget
    have hleads := hbegin.trans hv'
    dsimp only
    by_cases hends : src.Ends
    · rw [if_pos hends] at hleads htarget ⊢
      exact ⟨v', hleads, htarget⟩
    · rw [if_neg hends] at hleads htarget ⊢
      exact ⟨v', hleads, htarget⟩

end WinDep.Writers
