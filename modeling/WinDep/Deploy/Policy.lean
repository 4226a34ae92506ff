/-
# The policy gate of the client

The inventory is posted to the policy engine, and its reply becomes a decision.
Every reply that is no decision, and every error, gives the fail action, and an
action that is not known is a refusal.
-/

import WinDep.Deploy.Calls

namespace WinDep.Deploy

open Json Program

structure PolicyDecision where
  action : String
  allow : Bool
  reasons : List String
  remediations : List String
  config : Json

/-- The value of a property, or what stands for it if it is not there. -/
def PowerShell.readOr (ps : PowerShell) (v : Json) (name : String) (d : Json) :
    Except Raised Json := do
  if ← ps.hasProperty v name then ps.read v name else return d

section

variable (ps : PowerShell)

def newPolicyDecision (action : String) (reasons remediations : List String) (config : Json) :
    PolicyDecision :=
  ⟨action, ps.eq action "allow", reasons, remediations, config⟩

/-- A failure of the engine, with what to look at. -/
def failDecision (failAction reason remediation : String) : PolicyDecision :=
  newPolicyDecision ps failAction [reason] [remediation] .null

/-- The actions a decision may have. -/
def knownAction (action : String) : String :=
  if ["allow", "deny", "hold"].any (ps.eq action) then action else "deny"

/-- A list for a `[string[]]` parameter. An empty one is unrolled to a null on its way. -/
def boundList (v : Json) : List String :=
  match asArray v with
  | [] => [""]
  | items => items.map ps.expand

/-- The decision in the body of a reply. -/
def readDecision (failAction : String) (body : Bytes) : Except Raised PolicyDecision := do
  let parsed ← ps.convertFromJson body
  -- a path that is not defined gives a reply without a result
  let result := unroll (← ps.readOr parsed "result" .null)
  let undefinedResult := failDecision ps failAction
    "Policy engine returned no decision (undefined result)."
    "Confirm the Rego package path matches policyUrl and defines \"decision\"."
  if !truthy result then return undefinedResult
  if !(← ps.hasProperty result "action") then return undefinedResult
  let action := knownAction ps (ps.toLower (ps.expand (← ps.read result "action")))
  let reasons ← ps.readOr result "reasons" (.arr [])
  let remediations ← ps.readOr result "remediations" (.arr [])
  let config ← ps.readOr result "config" .null
  return newPolicyDecision ps action (boundList ps reasons) (boundList ps remediations)
    (unroll config)

/-- The decision a reply of the engine stands for. -/
def replyDecision (failAction : String) : HttpAnswer → PolicyDecision
  | .failed message => unreachable message
  | .answered status body =>
    if !isSuccess status then
      failDecision ps failAction ("Policy engine returned HTTP " ++ toString status ++ ".")
        "Verify the OPA endpoint, policy path, and TLS certificate."
    else
      match readDecision ps failAction body with
      | .ok decision => decision
      | .error e => unreachable (ps.message e)
where
  unreachable (message : String) : PolicyDecision :=
    failDecision ps failAction ("Policy engine unreachable: " ++ message)
      "Check network/DNS and that OPA is serving over HTTPS with a trusted certificate."

/-- `[Parameter(Mandatory)][pscustomobject]$Inventory` -/
def bindInventory (v : Json) : Except Raised Json :=
  if isNull v then throw (.parameter "Inventory") else return v

def invokePolicyEvaluation (policyUrl inventory failAction : Json) : Calls PolicyDecision := do
  let policyUrl ← ps.bindString "PolicyUrl" policyUrl
  let inventory ← bindInventory inventory
  let failAction ← ps.bindFailAction failAction
  -- without an address the gate is disabled
  if isNullOrWhiteSpace policyUrl then
    return newPolicyDecision ps "allow" ["Policy engine not configured (gate disabled)."] [] .null
  else
    return replyDecision ps failAction
      (← tell (.postPolicy policyUrl (.obj [("input", inventory)])))

end

/-! ## What allows -/

variable {ps : PowerShell} {failAction : String} {answer : HttpAnswer} {body : Bytes}
  {decision : PolicyDecision}

/-- The action of the result of a body, in lower case. -/
def readAction (ps : PowerShell) (body : Bytes) : Except Raised String := do
  let parsed ← ps.convertFromJson body
  let result ← ps.read parsed "result"
  return ps.toLower (ps.expand (← ps.read (unroll result) "action"))

/-- The action of a successful reply, in lower case. -/
def repliedAction (ps : PowerShell) : HttpAnswer → Option String
  | .failed _ => none
  | .answered status body => if isSuccess status then (readAction ps body).toOption else none

/-- A successful reply with an action that the session takes for `allow`. -/
def AllowReply (ps : PowerShell) (answer : HttpAnswer) : Prop :=
  ∃ action, repliedAction ps answer = some action ∧ ps.eq action "allow" = true

/-- An action that is not known refuses. -/
theorem eq_knownAction {action : String} (h : ps.eq (knownAction ps action) "allow" = true) :
    ps.eq action "allow" = true := by
  unfold knownAction at h
  split_ifs at h with hknown
  · exact h
  · -- the refusal is not taken for `allow`
    rw [ps.eq_allow "deny" (.inr (by simp [ignoringCase]))] at h
    exact absurd h Bool.false_ne_true

theorem allow_failDecision {reason remediation : String}
    (hfail : ps.eq failAction "allow" = false) :
    (failDecision ps failAction reason remediation).allow = false := hfail

theorem read_of_readOr {v d w : Json} {name : String} (h : ps.readOr v name d = .ok w) :
    ps.read v name = .ok w ∨ w = d := by
  obtain ⟨has, -, h⟩ := bind_eq_ok.mp h
  cases has with
  | true => exact .inl h
  | false => exact .inr (Except.ok.inj h).symm

/-- A body allows by its action only. -/
theorem readDecision_allow (hfail : ps.eq failAction "allow" = false)
    (h : readDecision ps failAction body = .ok decision) (hallow : decision.allow = true) :
    ∃ action, readAction ps body = .ok action ∧ ps.eq action "allow" = true := by
  obtain ⟨parsed, hparsed, h⟩ := bind_eq_ok.mp h
  obtain ⟨result, hresult, h⟩ := bind_eq_ok.mp h
  have hundefined {d : PolicyDecision} {reason remediation : String}
      (hd : Except.ok (failDecision ps failAction reason remediation) = Except.ok (ε := Raised) d)
      (hallow : d.allow = true) : False := by
    cases hd
    rw [allow_failDecision hfail] at hallow
    exact Bool.false_ne_true hallow
  -- every branch without an action is the fail action's
  by_cases htruthy : truthy (unroll result) = true
  · simp only [htruthy, Bool.not_true, Bool.false_eq_true, if_false] at h
    obtain ⟨has, hhas, h⟩ := bind_eq_ok.mp h
    cases has with
    | false => exact (hundefined h hallow).elim
    | true =>
      obtain ⟨action, haction, h⟩ := bind_eq_ok.mp h
      obtain ⟨reasons, -, h⟩ := bind_eq_ok.mp h
      obtain ⟨remediations, -, h⟩ := bind_eq_ok.mp h
      obtain ⟨config, -, h⟩ := bind_eq_ok.mp h
      cases h
      refine ⟨_, ?_, eq_knownAction hallow⟩
      -- a result that is not there is null, which is no decision
      rcases read_of_readOr hresult with hread | rfl
      · rw [readAction, hparsed, ok_bind, hread, ok_bind, haction]
        rfl
      · exact absurd htruthy Bool.false_ne_true
  · simp only [htruthy, Bool.not_false, if_true] at h
    exact (hundefined h hallow).elim

/-- A reply allows only if it succeeded and its action is `allow`. -/
theorem replyDecision_allow (hfail : ps.eq failAction "allow" = false)
    (hallow : (replyDecision ps failAction answer).allow = true) : AllowReply ps answer := by
  have hunreachable (message : String) :
      (replyDecision.unreachable ps failAction message).allow = false := allow_failDecision hfail
  cases answer with
  | failed message => exact absurd hallow (by simp [replyDecision, hunreachable])
  | answered status body =>
    cases hstatus : isSuccess status with
    | false => exact absurd hallow (by simp [replyDecision, hstatus, allow_failDecision hfail])
    | true =>
      cases hread : readDecision ps failAction body with
      | error e => exact absurd hallow (by simp [replyDecision, hstatus, hread, hunreachable])
      | ok decision =>
        simp only [replyDecision, hstatus, hread, Bool.not_true, Bool.false_eq_true,
          if_false] at hallow
        obtain ⟨action, haction, heq⟩ := readDecision_allow hfail hread hallow
        refine ⟨action, ?_, heq⟩
        rw [repliedAction, if_pos hstatus, haction]
        rfl

/-- The fail action is not taken for `allow`. -/
theorem eq_of_bindFailAction {v : Json} (h : ps.bindFailAction v = .ok failAction) :
    ps.eq failAction "allow" = false := by
  obtain ⟨s, -, h⟩ := bind_eq_ok.mp h
  split_ifs at h with hname
  cases h
  exact ps.eq_allow _ (by simpa [PowerShell.sameName] using hname)

theorem bindInventory_eq_ok {v w : Json} :
    bindInventory v = .ok w ↔ isNull v = false ∧ w = v := by
  unfold bindInventory
  cases isNull v with
  | true => exact ⟨nofun, nofun⟩
  | false => exact ⟨fun h => ⟨rfl, (Except.ok.inj h).symm⟩, fun h => h.2 ▸ rfl⟩

/-- Allowed: the gate is disabled, or the engine said so. -/
theorem invokePolicyEvaluation_allow {answers : (c : Call) → c.Answer}
    {policyUrl inventory failAction : Json}
    (h : result answers (invokePolicyEvaluation ps policyUrl inventory failAction) = .ok decision)
    (hallow : decision.allow = true) :
    ∃ url, ps.bindString "PolicyUrl" policyUrl = .ok url ∧ (isNullOrWhiteSpace url = true ∨
      AllowReply ps (answers (.postPolicy url (.obj [("input", inventory)])))) := by
  simp only [invokePolicyEvaluation, result_bind, result_liftExcept] at h
  obtain ⟨url, hurl, hbound⟩ := bind_eq_ok.mp h
  obtain ⟨bound, hinventory, hfails⟩ := bind_eq_ok.mp hbound
  obtain ⟨fail, hfail, hdecision⟩ := bind_eq_ok.mp hfails
  rw [(bindInventory_eq_ok.mp hinventory).2] at hdecision
  refine ⟨url, hurl, ?_⟩
  split_ifs at hdecision with hblank
  · exact .inl hblank
  · have hreply := Except.ok.inj hdecision
    rw [← hreply] at hallow
    exact .inr (replyDecision_allow (eq_of_bindFailAction hfail) hallow)

end WinDep.Deploy
