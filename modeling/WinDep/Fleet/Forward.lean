/-
# Forwarding to the admin

A replica of the api posts on from goroutines of its own, each of which holds one
of 64 tokens until it is done; a forward that finds no token is dropped. The
admin handles the posts side by side and inserts their rows one at a time.
Whatever the order and whatever fails, what the store is called for is, forward by
forward, the beginning of the rows it is meant for, and all of them if the admin
answered 202.
-/

import WinDep.Files.Audit
import WinDep.Fleet.Ingest

namespace WinDep.Fleet.Forwarding

open Runs

/-! ## The goroutines and the handlers -/

/-- `cap(ingestSem)` -/
def maxInFlight : ℕ := 64

/-- The environment of the api and of the admin. -/
structure Settings where
  adminIngestURL : String
  adminIngestToken : String
  adminToken : String

namespace Settings

variable (s : Settings)

/-- The header of a post; empty if it is not set. -/
def authorization : String :=
  if s.adminIngestToken = "" then "" else "Bearer " ++ s.adminIngestToken

/-- The admin takes the posts. -/
def Admits : Prop := s.adminToken = "" ∨ Audit.bearerToken s.authorization = s.adminToken

instance : Decidable s.Admits := inferInstanceAs (Decidable (_ ∨ _))

end Settings

/-- What has become of a post. -/
inductive Post
  /-- it has not reached the admin -/
  | pending
  /-- its handler has these rows left to insert -/
  | serving (left : List Insertion)
  | answered (status : ℕ)

structure Forward where
  replica : ℕ
  payload : Payload
  /-- the goroutine holds its token -/
  holding : Bool
  post : Post

/-- The forwards that were given a token, in that order, and the database of the admin. -/
structure Net where
  forwards : List Forward
  db : Database

def Net.init : Net := ⟨[], Database.empty⟩

/-- The goroutine holds a token of the replica. -/
def Forward.holds (replica : ℕ) (f : Forward) : Bool := f.holding && f.replica = replica

/-- `len(ingestSem)` of a replica -/
def Net.held (net : Net) (replica : ℕ) : ℕ := net.forwards.countP (Forward.holds replica)

def forwardIngest (s : Settings) (replica : ℕ) (p : Payload) (net : Net) : Net :=
  if s.adminIngestURL = "" then net
  else if net.held replica < maxInFlight then
    { net with forwards := net.forwards ++ [⟨replica, p, true, .pending⟩] }
  -- dropped, too many in flight
  else net

/-- What happens to a forward. -/
inductive Happening
  /-- the post reaches the admin -/
  | reach
  /-- the handler inserts its next row -/
  | insert (now : String)
  /-- an insertion fails -/
  | fail
  /-- the handler has inserted all rows -/
  | respond
  /-- the goroutine ends, whether it was answered, failed or timed out -/
  | release

/-- The post as the admin takes it. -/
def receive (s : Settings) (p : Payload) : Post :=
  if s.Admits then
    match handleIngest p.path p.toJson with
    | none => .answered 400
    | some rows => .serving rows
  else .answered 401

/-- The forward after what happens to it, and the calls of the store. -/
def Forward.step (s : Settings) (f : Forward) : Happening → Forward × List Op
  | .reach =>
    match f.post with
    | .pending => ({ f with post := receive s f.payload }, [])
    | _ => (f, [])
  | .insert now =>
    match f.post with
    | .serving (i :: left) => ({ f with post := .serving left }, [i.op now])
    | _ => (f, [])
  | .fail =>
    match f.post with
    | .serving (_ :: _) => ({ f with post := .answered 500 }, [])
    | _ => (f, [])
  | .respond =>
    match f.post with
    | .serving [] => ({ f with post := .answered 202 }, [])
    | _ => (f, [])
  | .release => ({ f with holding := false }, [])

inductive Event
  /-- a machine's request reaches a replica -/
  | request (replica : ℕ) (r : MachineRequest)
  | forward (i : ℕ) (h : Happening)
  /-- a call of the store from elsewhere in the admin -/
  | call (op : Op)

def step (s : Settings) (net : Net) : Event → Net
  | .request replica r =>
    match r.payload? with
    | none => net
    | some p => forwardIngest s replica p net
  | .forward i h =>
    match net.forwards[i]? with
    | none => net
    | some f => ⟨net.forwards.set i (f.step s h).1, run Database.step (f.step s h).2 net.db⟩
  | .call op => { net with db := net.db.step op }

/-! ## What has been inserted for a forward -/

/-- What the store was called for, by what has become of the post. -/
inductive Accounts (s : Settings) (p : Payload) : Post → List Insertion → Prop
  | pending : Accounts s p .pending []
  | refused (h : ¬ s.Admits) : Accounts s p (.answered 401) []
  | tooLong (h : ¬ p.Fits) : Accounts s p (.answered 400) []
  | serving {made left : List Insertion} (h : made ++ left = p.insertions) :
    Accounts s p (.serving left) made
  | failed {made left : List Insertion} (h : made ++ left = p.insertions) (hleft : left ≠ []) :
    Accounts s p (.answered 500) made
  | done : Accounts s p (.answered 202) p.insertions

variable {s : Settings} {f : Forward} {p : Payload} {made : List Insertion} {net : Net}
  {e : Happening}

theorem accounts_receive (s : Settings) (p : Payload) : Accounts s p (receive s p) [] := by
  rw [receive, handleIngest_payload]
  by_cases hadmits : s.Admits
  · rw [if_pos hadmits]
    by_cases hfits : p.Fits
    · rw [if_pos hfits]
      exact .serving rfl
    · rw [if_neg hfits]
      exact .tooLong hfits
  · rw [if_neg hadmits]
    exact .refused hadmits

/-- Whatever happens to a forward, its account goes on with the calls that are made. -/
theorem Accounts.step (h : Accounts s f.payload f.post made) (e : Happening) :
    Accounts s f.payload (f.step s e).1.post
      (made ++ (f.step s e).2.filterMap Op.insertion?) := by
  -- the account is that of a post which is still running, or of one that is over
  obtain ⟨replica, p, holding, post⟩ := f
  cases h with
  | pending =>
    cases e with
    | reach => exact accounts_receive s p
    | insert | fail | respond | release => exact .pending
  | refused hadmits => cases e <;> exact .refused hadmits
  | tooLong hfits => cases e <;> exact .tooLong hfits
  | @serving _ left h =>
    cases e with
    | reach | release => exact .serving (by simpa [Forward.step] using h)
    | insert now =>
      cases left with
      | nil => exact .serving (by simpa [Forward.step] using h)
      | cons i left => exact .serving (by simpa [Forward.step] using h)
    | fail =>
      cases left with
      | nil => exact .serving (by simpa [Forward.step] using h)
      | cons i left =>
        -- the insertion that fails stays among those that are left
        exact @Accounts.failed _ _ _ (i :: left) (by simpa [Forward.step] using h)
          (List.cons_ne_nil _ _)
    | respond =>
      cases left with
      | nil =>
        -- nothing is left to insert, so all of it was made
        obtain rfl : made = p.insertions := by simpa using h
        simpa [Forward.step] using Accounts.done
      | cons i left => exact .serving (by simpa [Forward.step] using h)
  | @failed _ left h hleft =>
    cases e <;> exact .failed (by simpa [Forward.step] using h) hleft
  | done => cases e <;> simpa [Forward.step] using Accounts.done

/-! ## Tokens -/

/-- Where a forward comes from. -/
def Forward.origin (f : Forward) : ℕ × Payload := (f.replica, f.payload)

theorem origin_step (s : Settings) (f : Forward) (e : Happening) :
    (f.step s e).1.origin = f.origin := by
  obtain ⟨replica, p, holding, post⟩ := f
  cases e with
  | release => rfl
  | reach | insert | fail | respond =>
    simp only [Forward.step]
    split <;> rfl

/-- No forward takes a token again. -/
theorem holds_step {replica : ℕ} (h : (f.step s e).1.holds replica = true) :
    f.holds replica = true := by
  obtain ⟨replica', p, holding, post⟩ := f
  cases e with
  | release => cases h
  | reach | insert | fail | respond =>
    simp only [Forward.step] at h
    split at h <;> exact h

theorem held_forward (s : Settings) (net : Net) (i : ℕ) (e : Happening) (replica : ℕ) :
    (step s net (.forward i e)).held replica ≤ net.held replica := by
  rw [step]
  cases hf : net.forwards[i]? with
  | none => exact le_rfl
  | some f =>
    obtain ⟨hi, hget⟩ := List.getElem?_eq_some_iff.mp hf
    have hcount := List.boole_getElem_le_countP (p := Forward.holds replica) hi
    rw [Net.held, List.countP_set hi]
    rw [hget] at hcount ⊢
    by_cases hholds : (f.step s e).1.holds replica = true
    · -- the forward held its token before, so the count is what it was
      rw [if_pos hholds]
      rw [if_pos (holds_step hholds)] at hcount ⊢
      exact (Nat.sub_add_cancel hcount).le
    · rw [if_neg hholds]
      exact Nat.sub_le _ _

/-- No replica holds more tokens than there are. -/
def Bounded (net : Net) : Prop := ∀ replica, net.held replica ≤ maxInFlight

theorem Bounded.forwardIngest (h : Bounded net) (replica' : ℕ) (p : Payload) :
    Bounded (forwardIngest s replica' p net) := by
  intro replica
  rw [Forwarding.forwardIngest]
  split_ifs with hurl hfree
  · exact h replica
  · rw [Net.held, List.countP_append, ← Net.held, List.countP_singleton]
    by_cases hreplica : replica' = replica
    · subst hreplica
      rw [if_pos (by simp [Forward.holds])]
      exact hfree
    · rw [if_neg (by simp [Forward.holds, hreplica])]
      exact h replica
  · exact h replica

theorem Bounded.step (h : Bounded net) (e : Event) : Bounded (step s net e) := by
  cases e with
  | request replica' r =>
    rw [Forwarding.step]
    cases r.payload? with
    | none => exact h
    | some p => exact h.forwardIngest replica' p
  | forward i e => exact fun replica => (held_forward s net i e replica).trans (h replica)
  | call op => exact h

/-! ## The calls of the store -/

/-- The forward an event asks for. -/
def Event.asked? : Event → Option (ℕ × Payload)
  | .request replica r => r.payload?.map fun p => (replica, p)
  | _ => none

/-- The call an event makes on its own. -/
def Event.call? : Event → Option Op
  | .call op => some op
  | _ => none

/-- The rows a forward has had inserted, where each call goes with the number of the forward it was
made for. -/
def madeFor (i : ℕ) (calls : List (Option ℕ × Op)) : List Insertion :=
  (calls.filter fun c => c.1 = some i).filterMap fun c => c.2.insertion?

theorem madeFor_append (i : ℕ) (calls calls' : List (Option ℕ × Op)) :
    madeFor i (calls ++ calls') = madeFor i calls ++ madeFor i calls' := by
  rw [madeFor, List.filter_append, List.filterMap_append]
  rfl

theorem madeFor_map (i j : ℕ) (ops : List Op) :
    madeFor i (ops.map (some j, ·)) = if j = i then ops.filterMap Op.insertion? else [] := by
  by_cases hij : j = i
  · simp [madeFor, hij, List.filter_map, List.filterMap_map, Function.comp_def]
  · simp [madeFor, hij, List.filter_map, Function.comp_def]

/-- The calls bring the database to where it is, and every call inserts a row for a forward or is
made on its own. -/
structure Linear (s : Settings) (es : List Event) (net : Net) (calls : List (Option ℕ × Op)) :
    Prop where
  db : net.db = Database.after (calls.map Prod.snd)
  accounts : ∀ i f, net.forwards[i]? = some f → Accounts s f.payload f.post (madeFor i calls)
  labelled : ∀ i op, (some i, op) ∈ calls →
    i < net.forwards.length ∧ op.insertion?.isSome = true
  others : (calls.filter fun c => c.1 = none).map Prod.snd = es.filterMap Event.call?

variable {es : List Event} {calls : List (Option ℕ × Op)}

/-- Nothing has been inserted for a forward that is not there. -/
theorem Linear.unknown (h : Linear s es net calls) {i : ℕ} (hi : net.forwards.length ≤ i) :
    madeFor i calls = [] := by
  have hnone : (calls.filter fun c => c.1 = some i) = [] := by
    refine List.filter_eq_nil_iff.mpr fun c hc hlabel => ?_
    obtain ⟨label, op⟩ := c
    obtain rfl : label = some i := of_decide_eq_true hlabel
    exact absurd (h.labelled i op hc).1 (not_lt.mpr hi)
  rw [madeFor, hnone, List.filterMap_nil]

/-- A forward calls the store for insertions only. -/
theorem insertion_of_mem_step {op : Op} (h : op ∈ (f.step s e).2) :
    op.insertion?.isSome = true := by
  obtain ⟨replica, p, holding, post⟩ := f
  cases e with
  | insert now =>
    simp only [Forward.step] at h
    split at h
    · rw [List.mem_singleton.mp h, Insertion.insertion?_op]
      rfl
    · cases h
  | release => cases h
  | reach | fail | respond =>
    simp only [Forward.step] at h
    split at h <;> cases h

theorem after_append (ops ops' : List Op) :
    Database.after (ops ++ ops') = run Database.step ops' (Database.after ops) := by
  rw [Database.after, run, List.foldl_append]
  rfl

theorem Linear.forwardIngest (h : Linear s es net calls) (replica : ℕ) (p : Payload) :
    Linear s es (forwardIngest s replica p net) calls := by
  rw [Forwarding.forwardIngest]
  split_ifs
  · exact h
  · refine ⟨h.db, fun i f hf => ?_, fun i op hop => ?_, h.others⟩
    · rcases lt_or_ge i net.forwards.length with hlt | hge
      · rw [List.getElem?_append_left hlt] at hf
        exact h.accounts i f hf
      · -- nothing has been made for the new forward
        rw [List.getElem?_append_right hge] at hf
        obtain rfl := List.mem_singleton.mp (List.mem_of_getElem? hf)
        rw [h.unknown hge]
        exact .pending
    · obtain ⟨hi, hinsertion⟩ := h.labelled i op hop
      rw [List.length_append]
      exact ⟨Nat.lt_add_right _ hi, hinsertion⟩
  · exact h

theorem Linear.step (h : Linear s es net calls) (e : Event) :
    ∃ calls', Linear s (es ++ [e]) (step s net e) calls' := by
  have others_map (i : ℕ) (ops : List Op) :
      (ops.map fun op => (some i, op)).filter (fun c : Option ℕ × Op => c.1 = none) = [] := by
    simp [List.filter_map, Function.comp_def]
  cases e with
  | request replica r =>
    refine ⟨calls, ?_⟩
    have hes : Linear s (es ++ [.request replica r]) net calls := by
      refine ⟨h.db, h.accounts, h.labelled, ?_⟩
      rw [List.filterMap_append, h.others]
      exact (List.append_nil _).symm
    rw [Forwarding.step]
    cases r.payload? with
    | none => exact hes
    | some p => exact hes.forwardIngest replica p
  | forward i e =>
    have hes : (es ++ [Event.forward i e]).filterMap Event.call? = es.filterMap Event.call? := by
      rw [List.filterMap_append]
      exact List.append_nil _
    rw [Forwarding.step]
    cases hf : net.forwards[i]? with
    | none => exact ⟨calls, h.db, h.accounts, h.labelled, h.others.trans hes.symm⟩
    | some f =>
      obtain ⟨hi, -⟩ := List.getElem?_eq_some_iff.mp hf
      -- the calls of the step are labelled with the forward that made them
      refine ⟨calls ++ (f.step s e).2.map (some i, ·), ?_, fun j g hg => ?_, fun j op hop => ?_, ?_⟩
      · rw [List.map_append, after_append, ← h.db]
        simp
      · rw [madeFor_append, madeFor_map]
        by_cases hij : i = j
        · subst hij
          rw [List.getElem?_set_self hi, Option.some.injEq] at hg
          subst hg
          have hpayload : (f.step s e).1.payload = f.payload :=
            congrArg Prod.snd (origin_step s f e)
          rw [if_pos rfl, hpayload]
          exact (h.accounts i f hf).step e
        · rw [List.getElem?_set_ne hij] at hg
          rw [if_neg hij, List.append_nil]
          exact h.accounts j g hg
      · rw [List.length_set]
        rcases List.mem_append.mp hop with hop | hop
        · exact h.labelled j op hop
        · obtain ⟨op', hop', hlabel⟩ := List.mem_map.mp hop
          cases hlabel
          exact ⟨hi, insertion_of_mem_step hop'⟩
      · rw [List.filter_append, others_map, List.append_nil, h.others, hes]
  | call op =>
    refine ⟨calls ++ [(none, op)], ?_, fun i f hf => ?_, fun i op' hop => ?_, ?_⟩
    · rw [List.map_append, after_append, ← h.db]
      rfl
    · rw [madeFor_append]
      simpa [madeFor] using h.accounts i f hf
    · refine h.labelled i op' ((List.mem_append.mp hop).resolve_right fun hown => ?_)
      cases List.mem_singleton.mp hown
    · rw [List.filter_append, List.map_append, List.filterMap_append, h.others]
      rfl

/-! ## Runs -/

theorem run_concat (es : List Event) (e : Event) :
    run (step s) (es ++ [e]) net = step s (run (step s) es net) e := by
  rw [run, List.foldl_concat]
  rfl

theorem exists_linear (s : Settings) (es : List Event) :
    ∃ calls, Linear s es (run (step s) es Net.init) calls := by
  induction es using List.reverseRecOn with
  | nil => exact ⟨[], rfl, by simp [Net.init, run], by simp, rfl⟩
  | append_singleton es e ih =>
    obtain ⟨calls, hcalls⟩ := ih
    rw [run_concat]
    exact hcalls.step e

theorem origins_step (s : Settings) (net : Net) (e : Event) :
    ((step s net e).forwards.map Forward.origin).Sublist
      (net.forwards.map Forward.origin ++ e.asked?.toList) := by
  cases e with
  | request replica r =>
    rw [step, Event.asked?]
    cases r.payload? with
    | none => exact List.sublist_append_left _ _
    | some p =>
      dsimp only [forwardIngest]
      split_ifs
      · exact List.sublist_append_left _ _
      · rw [List.map_append]
        exact List.Sublist.refl _
      · exact List.sublist_append_left _ _
  | forward i e =>
    rw [step]
    cases hf : net.forwards[i]? with
    | none => exact List.sublist_append_left _ _
    | some f =>
      have hset : (net.forwards.set i (f.step s e).1).map Forward.origin =
          net.forwards.map Forward.origin := by
        rw [List.map_set, origin_step]
        obtain ⟨hi, rfl⟩ := List.getElem?_eq_some_iff.mp hf
        rw [← List.map_set, List.set_getElem_self]
      rw [hset]
      exact List.sublist_append_left _ _
  | call op => exact List.sublist_append_left _ _

theorem origins_run (s : Settings) (es : List Event) :
    ((run (step s) es Net.init).forwards.map Forward.origin).Sublist
      (es.filterMap Event.asked?) := by
  induction es using List.reverseRecOn with
  | nil => exact List.Sublist.refl _
  | append_singleton es e ih =>
    have hconcat : (es ++ [e]).filterMap Event.asked? =
        es.filterMap Event.asked? ++ e.asked?.toList := by
      rw [List.filterMap_append]
      cases h : e.asked? <;> simp [h]
    rw [run_concat, hconcat]
    exact (origins_step s _ e).trans (ih.append_right _)

/-- **Forwarding is bounded and stores no row twice or out of order.** In every run of requests to
any number of replicas, goroutines, handlers and other calls of the store, in any order and with any
failures: a replica never holds more than 64 tokens, and it forwards at most what its requests ask
for. And the database is what a sequence of calls makes of it. Each call is an insertion for one of
the forwards or comes from elsewhere, and the ones that were made for a forward insert its rows in
order: none before the post arrives or where it is refused, a proper part where an insertion failed,
and all where the admin answered 202. -/
theorem forwards_accounted (s : Settings) (es : List Event) :
    Bounded (run (step s) es Net.init) ∧
      ((run (step s) es Net.init).forwards.map Forward.origin).Sublist
        (es.filterMap Event.asked?) ∧
      ∃ calls, (run (step s) es Net.init).db = Database.after (calls.map Prod.snd) ∧
        (∀ i f, (run (step s) es Net.init).forwards[i]? = some f →
          Accounts s f.payload f.post (madeFor i calls)) ∧
        (∀ i op, (some i, op) ∈ calls →
          i < (run (step s) es Net.init).forwards.length ∧ op.insertion?.isSome = true) ∧
        (calls.filter fun c => c.1 = none).map Prod.snd = es.filterMap Event.call? := by
  obtain ⟨calls, hcalls⟩ := exists_linear s es
  refine ⟨?_, origins_run s es, calls, hcalls.db, hcalls.accounts, hcalls.labelled,
    hcalls.others⟩
  exact invariant es (fun _ e h => h.step e) fun _ => Nat.zero_le _

end WinDep.Fleet.Forwarding
