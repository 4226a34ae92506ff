/-
# The resolve endpoint

The api serves a machine its opened config after two gates: the machine has a
config of its own, and the policy engine, asked with the inventory the machine
sent, answers allow. Everything else is refused, and what a refusal says does not
depend on what the stored configs contain.
-/

import WinDep.Config.Resolve
import WinDep.Data.JsonStruct

namespace WinDep.Api

open Json

/-- The environment variables the endpoint reads. -/
structure Environment where
  /-- `POLICY_URL` -/
  policyUrl : String
  /-- `POLICY_FAIL_ACTION` -/
  policyFailAction : String

def getenv (v d : String) : String := if v ≠ "" then v else d

/-- What posting to the policy engine gives: no answer, or a status and the bytes of a body. -/
inductive PolicyAnswer
  | unreachable
  | answered (status : ℕ) (body : Bytes)

/-- The policy engine, by the document it is sent. -/
abbrev PolicyEngine := Json → PolicyAnswer

structure ResolveRequest where
  serial : String
  mac : String
  model : String
  inventory : Option Json

def ResolveRequest.empty : ResolveRequest := ⟨"", "", "", none⟩

def ResolveRequest.decode (req : ResolveRequest) (ms : Members) : Option ResolveRequest := do
  let serial ← decodeField "serial" decodeString req.serial ms
  let mac ← decodeField "mac" decodeString req.mac ms
  let model ← decodeField "model" decodeString req.model ms
  let inventory ← decodeField "inventory" (fun _ v => some (some v)) req.inventory ms
  return ⟨serial, mac, model, inventory⟩

/-- `json.Unmarshal` of a request body. -/
def unmarshalRequest (raw : Bytes) : Option ResolveRequest :=
  (checkValid (Utf8.decode raw)).bind (decodeStruct ResolveRequest.decode .empty)

/-- The action of a policy answer: the member `action` of the member `result` of the first value
of the body, the empty string if there is none. -/
def decodeAction (body : Bytes) : Option String :=
  (scanFirst (Utf8.decode body)).bind fun r =>
    unmarshalStruct (decodeField "result" (decodeStruct (decodeField "action" decodeString))) "" r.1

section

variable (lower : Char → Char) (env : Environment) (opa : PolicyEngine)

/-- `strings.ToLower`, by the lower case of each character. -/
def toLower (s : String) : String := String.ofList (s.toList.map lower)

/-- Ask the policy engine. The action of a refusal is reported to the machine. -/
def evalPolicy (inventory : Option Json) : Bool × String :=
  if env.policyUrl = "" then (true, "allow")
  else
    let fail := getenv env.policyFailAction "hold"
    match opa (.obj [("input", inventory.getD .null)]) with
    | .unreachable => (false, fail)
    | .answered status body =>
      if status < 200 ∨ 300 ≤ status then (false, fail)
      else
        match decodeAction body with
        | none => (false, fail)
        | some action =>
          let action := toLower lower action
          -- a document without an action decides nothing
          if action = "" then (false, fail) else (action == "allow", action)

inductive ResponseBody
  | text (message : String)
  | config (cfg : Object)

structure Response where
  status : ℕ
  body : ResponseBody

def Response.error (status : ℕ) (message : String) : Response := ⟨status, .text message⟩

/-- What a call of `auditResolve` logs and sends to the audit trail of the admin. -/
structure ResolveRecord where
  serial : String
  mac : String
  ip : String
  decision : String
  status : ℕ
  deriving DecidableEq

def auditResolve (ip : String) (req : ResolveRequest) (decision : String) (status : ℕ) :
    ResolveRecord :=
  ⟨req.serial, req.mac, ip, decision, status⟩

variable (P : Primitives) (masterKey : Option Key) (tree : Tree)

/-- The response to a request and the calls of `auditResolve`. -/
def handleResolve (ip : String) (raw : Bytes) : Response × List ResolveRecord :=
  match unmarshalRequest raw with
  | none => (.error 400 "invalid json", [])
  | some req =>
    if !validSerial req.serial then (.error 400 "invalid serial", [])
    else
      -- the config is opened before the policy is asked
      match resolveConfig P masterKey tree req.serial with
      | .error _ => (.error 500 "resolve failed", [])
      | .ok none => (.error 404 "not enrolled", [auditResolve ip req "not-enrolled" 404])
      | .ok (some cfg) =>
        let (allow, action) := evalPolicy lower env opa req.inventory
        if !allow then
          (.error 403 ("policy " ++ action), [auditResolve ip req ("policy-" ++ action) 403])
        else (⟨200, .config cfg⟩, [auditResolve ip req "allow" 200])

end

/-! ## The policy gate -/

variable {lower : Char → Char} {env : Environment} {opa : PolicyEngine} {P : Primitives}
  {masterKey : Option Key} {tree tree' : Tree} {ip : String} {raw : Bytes}
  {inventory : Option Json} {serial : String} {req : ResolveRequest}

/-- The gate is disabled, or the engine answered 2xx with a document whose action is allow. -/
def PolicyAllows (lower : Char → Char) (env : Environment) (opa : PolicyEngine)
    (inventory : Option Json) : Prop :=
  env.policyUrl = "" ∨
    ∃ status body action, opa (.obj [("input", inventory.getD .null)]) = .answered status body ∧
      200 ≤ status ∧ status < 300 ∧ decodeAction body = some action ∧
        toLower lower action = "allow"

/-- The engine's answer is the only way through an enabled gate, whatever the fail action. -/
theorem evalPolicy_allow_iff :
    (evalPolicy lower env opa inventory).1 = true ↔ PolicyAllows lower env opa inventory := by
  unfold evalPolicy PolicyAllows
  by_cases hurl : env.policyUrl = ""
  · simp [hurl]
  rw [if_neg hurl]
  cases hanswer : opa (.obj [("input", inventory.getD .null)]) with
  | unreachable => simp [hurl]
  | answered status body =>
    by_cases hstatus : status < 200 ∨ 300 ≤ status
    · simp only [hstatus, if_true]
      apply iff_of_false Bool.false_ne_true
      rintro (h | ⟨_, _, _, ⟨⟩, hge, hlt, -⟩)
      · exact hurl h
      · omega
    simp only [hstatus, if_false]
    cases haction : decodeAction body with
    | none => simp [hurl, haction]
    | some action =>
      by_cases hempty : toLower lower action = ""
      · simp [hempty, hurl, haction]
      · simp only [hempty, if_false, beq_iff_eq]
        constructor
        · intro hallow
          exact Or.inr ⟨status, body, action, rfl, by omega, by omega, haction, hallow⟩
        · rintro (h | ⟨_, _, action', ⟨⟩, -, -, haction', hallow⟩)
          · exact absurd h hurl
          · rw [haction, Option.some.injEq] at haction'
            exact haction' ▸ hallow

/-! ## The two gates -/

/-- The machine has a config file. -/
def Enrolled (tree : Tree) (serial : String) : Prop :=
  tree (Path.join ["config"] ("machines/" ++ serial ++ ".json")) ≠ .missing

/-- The config of every machine resolves, or the machine is not enrolled. -/
def AllResolve (P : Primitives) (masterKey : Option Key) (tree : Tree) : Prop :=
  ∀ serial, validSerial serial = true → ∃ cfg, resolveConfig P masterKey tree serial = .ok cfg

theorem readConfigFile_eq_none {rel : String} :
    readConfigFile tree rel = .ok none ↔ tree (Path.join ["config"] rel) = .missing := by
  unfold readConfigFile
  split
  · next h => simp [h]
  · next h => simp [h]
  · next content h =>
    rw [h]
    split <;> simp

theorem resolveConfig_eq_none :
    resolveConfig P masterKey tree serial = .ok none ↔
      readConfigFile tree ("machines/" ++ serial ++ ".json") = .ok none := by
  unfold resolveConfig
  split
  · next h => simp [h]
  · next h => simp [h]
  · next per h =>
    rw [h]
    refine iff_of_false ?_ (by simp)
    split
    · simp
    · next base hbase =>
      cases decryptUnattend P masterKey (mergeConfig base.join per) <;> simp [Except.map]

theorem readConfigFile_of_resolveConfig {cfg : Object}
    (h : resolveConfig P masterKey tree serial = .ok (some cfg)) :
    ∃ per, readConfigFile tree ("machines/" ++ serial ++ ".json") = .ok (some per) := by
  unfold resolveConfig at h
  split at h
  · simp at h
  · simp at h
  · next per hper => exact ⟨per, hper⟩

/-- What a response of 200 went through. -/
structure Served (lower : Char → Char) (env : Environment) (opa : PolicyEngine) (tree : Tree)
    (raw : Bytes) (req : ResolveRequest) : Prop where
  parses : unmarshalRequest raw = some req
  serial : validSerial req.serial = true
  config : ∃ per, readConfigFile tree ("machines/" ++ req.serial ++ ".json") = .ok (some per)
  policy : PolicyAllows lower env opa req.inventory

theorem served_of_status
    (h : (handleResolve lower env opa P masterKey tree ip raw).1.status = 200) :
    ∃ req, Served lower env opa tree raw req := by
  unfold handleResolve at h
  split at h
  · simp [Response.error] at h
  next req hreq =>
  by_cases hserial : validSerial req.serial = true
  · rw [if_neg (by simp [hserial])] at h
    split at h
    · simp [Response.error] at h
    · simp [Response.error] at h
    · next cfg hcfg =>
      cases hallow : (evalPolicy lower env opa req.inventory).1 with
      | false => simp [hallow, Response.error] at h
      | true =>
        exact ⟨req, hreq, hserial, readConfigFile_of_resolveConfig hcfg,
          evalPolicy_allow_iff.mp hallow⟩
  · simp [hserial, Response.error] at h

/-- The response once the config of a valid serial is resolved. -/
def resolved (lower : Char → Char) (env : Environment) (opa : PolicyEngine) (ip : String)
    (req : ResolveRequest) : Option Object → Response × List ResolveRecord
  | none => (.error 404 "not enrolled", [auditResolve ip req "not-enrolled" 404])
  | some cfg =>
    if (evalPolicy lower env opa req.inventory).1 then
      (⟨200, .config cfg⟩, [auditResolve ip req "allow" 200])
    else
      (.error 403 ("policy " ++ (evalPolicy lower env opa req.inventory).2),
        [auditResolve ip req ("policy-" ++ (evalPolicy lower env opa req.inventory).2) 403])

theorem handleResolve_of_ok {cfg : Option Object} (hreq : unmarshalRequest raw = some req)
    (hserial : validSerial req.serial = true)
    (hcfg : resolveConfig P masterKey tree req.serial = .ok cfg) :
    handleResolve lower env opa P masterKey tree ip raw = resolved lower env opa ip req cfg := by
  simp only [handleResolve, hreq, hserial, hcfg, Bool.not_true, Bool.false_eq_true, if_false]
  cases cfg with
  | none => rfl
  | some cfg => cases h : (evalPolicy lower env opa req.inventory).1 <;> simp [resolved, h]

/-- A refusal over one tree is the response over every tree that enrols the same machines. -/
theorem refusal_eq
    (hsame : ∀ serial, validSerial serial = true → (Enrolled tree serial ↔ Enrolled tree' serial))
    (hall : AllResolve P masterKey tree) (hall' : AllResolve P masterKey tree')
    (hrefused : (handleResolve lower env opa P masterKey tree ip raw).1.status ≠ 200) :
    handleResolve lower env opa P masterKey tree' ip raw =
      handleResolve lower env opa P masterKey tree ip raw := by
  cases hreq : unmarshalRequest raw with
  | none => simp [handleResolve, hreq]
  | some req =>
    by_cases hserial : validSerial req.serial = true
    · -- both trees resolve the serial, to a config or to none alike
      obtain ⟨cfg, hcfg⟩ := hall req.serial hserial
      obtain ⟨cfg', hcfg'⟩ := hall' req.serial hserial
      have henrolled : cfg = none ↔ cfg' = none := by
        have hiff := not_congr (hsame req.serial hserial)
        simp only [Enrolled, ne_eq, not_not] at hiff
        rw [← readConfigFile_eq_none, ← readConfigFile_eq_none,
          ← @resolveConfig_eq_none P masterKey, ← @resolveConfig_eq_none P masterKey, hcfg, hcfg',
          Except.ok.injEq, Except.ok.injEq] at hiff
        exact hiff
      rw [handleResolve_of_ok hreq hserial hcfg] at hrefused
      rw [handleResolve_of_ok hreq hserial hcfg, handleResolve_of_ok hreq hserial hcfg']
      cases cfg with
      | none => rw [henrolled.mp rfl]
      | some cfg =>
        cases cfg' with
        | none => exact absurd (henrolled.mpr rfl) (by simp)
        | some cfg' =>
          -- the policy sees the request only
          cases hallow : (evalPolicy lower env opa req.inventory).1 with
          | false => simp [resolved, hallow]
          | true => simp [resolved, hallow] at hrefused
    · simp [handleResolve, hreq, hserial]

/-- **The gate.** A config is served only to an enrolled machine that the policy allows, and a
refusal reveals nothing of the stored configs beyond which machines are enrolled. -/
theorem handleResolve_gate (lower : Char → Char) (P : Primitives) (masterKey : Option Key)
    (env : Environment) (opa : PolicyEngine) (ip : String) (raw : Bytes) :
    (∀ tree : Tree, (handleResolve lower env opa P masterKey tree ip raw).1.status = 200 →
      ∃ req, Served lower env opa tree raw req) ∧
    (∀ tree tree' : Tree,
      (∀ serial, validSerial serial = true →
        (Enrolled tree serial ↔ Enrolled tree' serial)) →
      AllResolve P masterKey tree → AllResolve P masterKey tree' →
      (handleResolve lower env opa P masterKey tree ip raw).1.status ≠ 200 →
      handleResolve lower env opa P masterKey tree' ip raw =
        handleResolve lower env opa P masterKey tree ip raw) :=
  ⟨fun _ => served_of_status, fun _ _ => refusal_eq⟩

end WinDep.Api
