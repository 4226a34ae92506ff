/-
# The record of resolutions

Every call of the resolve endpoint is meant to be on the record, served or
refused. The handler records a call where it answers 404, 403 or 200. It leaves
through three more exits, a body that is not a request, a serial that is not one
and a config that does not resolve, and records nothing there.
-/

import WinDep.Api.Resolve

namespace WinDep.Api

open Json Envelope

variable {lower : Char → Char} {env : Environment} {opa : PolicyEngine} {P : Primitives}
  {masterKey : Option Key} {tree : Tree} {ip : String} {raw : Bytes} {serial : String}
  {req : ResolveRequest}

/-! ## When a config resolves -/

/-- The machine has no config, or its config and the default are JSON objects and the block of
their merge opens. -/
def Resolves (P : Primitives) (masterKey : Option Key) (tree : Tree) (serial : String) : Prop :=
  readConfigFile tree ("machines/" ++ serial ++ ".json") = .ok none ∨
    ∃ per base, readConfigFile tree ("machines/" ++ serial ++ ".json") = .ok (some per) ∧
      readConfigFile tree "default.json" = .ok base ∧
      ConfigOpens P masterKey (some (mergeConfig base.join per))

theorem configOpens_of_decrypts {o o' : Object} (h : decryptUnattend P masterKey o = .ok o') :
    ConfigOpens P masterKey (some o) := by
  intro un hun
  apply closedMember_eq_none.mp
  rw [decryptUnattend, show o.object? "unattend" = some un from hun] at h
  cases hclosed : closedMember P masterKey un with
  | none => rfl
  | some p => simp [hclosed] at h

theorem resolveConfig_ok_iff :
    (∃ cfg, resolveConfig P masterKey tree serial = .ok cfg) ↔
      Resolves P masterKey tree serial := by
  unfold resolveConfig Resolves
  cases hper : readConfigFile tree ("machines/" ++ serial ++ ".json") with
  | error e => simp
  | ok per? =>
    cases per? with
    | none => simp
    | some per =>
      cases hbase : readConfigFile tree "default.json" with
      | error e => simp
      | ok base =>
        dsimp only
        constructor
        · -- a block that does not open is the only failure left
          rintro ⟨cfg, hcfg⟩
          cases hopen : decryptUnattend P masterKey (mergeConfig base.join per) with
          | error e => simp [hopen, Except.map] at hcfg
          | ok o => exact Or.inr ⟨per, base, rfl, rfl, configOpens_of_decrypts hopen⟩
        · intro h
          rcases h with h | ⟨per', base', hper', hbase', hopens⟩
          · simp at h
          · obtain rfl : per = per' := by simpa using hper'
            obtain rfl : base = base' := by simpa using hbase'
            rw [decryptUnattend_of_opens hopens]
            exact ⟨_, rfl⟩

/-! ## The exits -/

/-- A request that gets as far as a decision: a decision is what is recorded. -/
def Decided (P : Primitives) (masterKey : Option Key) (tree : Tree) (raw : Bytes) : Prop :=
  ∃ req, unmarshalRequest raw = some req ∧ validSerial req.serial = true ∧
    Resolves P masterKey tree req.serial

theorem recorded_of_decided (h : Decided P masterKey tree raw) :
    ∃ record, (handleResolve lower env opa P masterKey tree ip raw).2 = [record] ∧
      record.status = (handleResolve lower env opa P masterKey tree ip raw).1.status := by
  obtain ⟨req, hreq, hserial, hresolves⟩ := h
  obtain ⟨cfg, hcfg⟩ := resolveConfig_ok_iff.mpr hresolves
  simp only [handleResolve, hreq, hserial, hcfg, Bool.not_true,
    Bool.false_eq_true, if_false]
  -- not enrolled, refused and served: each exit has its record
  cases cfg with
  | none => exact ⟨_, rfl, rfl⟩
  | some cfg =>
    dsimp only
    split_ifs
    · exact ⟨_, rfl, rfl⟩
    · exact ⟨_, rfl, rfl⟩

/-- The other exits, a 400 or a 500, leave no record. -/
theorem recorded_of_not_decided (h : ¬ Decided P masterKey tree raw) :
    (handleResolve lower env opa P masterKey tree ip raw).2 = [] := by
  cases hreq : unmarshalRequest raw with
  | none => simp [handleResolve, hreq]
  | some req =>
    by_cases hserial : validSerial req.serial = true
    · cases hcfg : resolveConfig P masterKey tree req.serial with
      | error e => simp [handleResolve, hreq, hserial, hcfg]
      | ok cfg => exact absurd ⟨req, hreq, hserial, resolveConfig_ok_iff.mp ⟨cfg, hcfg⟩⟩ h
    · simp [handleResolve, hreq, hserial]

/-- **The record is of decisions.** A call is recorded once, with the status it was answered,
exactly when its body is a request for a valid serial whose config resolves. -/
theorem handleResolve_recorded_iff (lower : Char → Char) (env : Environment) (opa : PolicyEngine)
    (P : Primitives) (masterKey : Option Key) (tree : Tree) (ip : String) (raw : Bytes) :
    (∃ record, (handleResolve lower env opa P masterKey tree ip raw).2 = [record] ∧
      record.status = (handleResolve lower env opa P masterKey tree ip raw).1.status) ↔
      Decided P masterKey tree raw := by
  constructor
  · rintro ⟨record, hrecord, -⟩
    by_contra h
    rw [recorded_of_not_decided h] at hrecord
    simp at hrecord
  · exact recorded_of_decided

/-- A machine whose file is cut short: the call is answered 500 and leaves no record. -/
theorem malformed_config_unrecorded :
    ¬ ∀ (lower : Char → Char) (env : Environment) (opa : PolicyEngine) (P : Primitives)
      (masterKey : Option Key) (tree : Tree) (ip : String) (raw : Bytes),
      ∃ record, (handleResolve lower env opa P masterKey tree ip raw).2 = [record] ∧
        record.status =
          (handleResolve lower env opa P masterKey tree ip raw).1.status := by
  intro h
  -- the file breaks off after its first key
  obtain ⟨record, hrecord, -⟩ := h Char.toLower ⟨"", ""⟩ (fun _ => .unreachable)
    default none (fun _ => .content (toBytes "\x7b\"mode\":"))
    "10.0.0.7" (toBytes "\x7b\"serial\":\"A1\"\x7d")
  have hnone : unmarshal (trimBOM (toBytes "\x7b\"mode\":")) = none := by decide +kernel
  have hserial : (unmarshalRequest (toBytes "\x7b\"serial\":\"A1\"\x7d")).map
      ResolveRequest.serial = some "A1" := by decide +kernel
  obtain ⟨req, hreq, hserial⟩ := Option.map_eq_some_iff.mp hserial
  have hvalid : validSerial "A1" = true := by decide
  simp [handleResolve, resolveConfig, readConfigFile, hnone, hreq,
    hserial, hvalid] at hrecord

end WinDep.Api
