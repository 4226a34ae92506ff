/-
# The config of a machine

The client reads its settings, asks the api for the config of the machine and
falls back to the default config of the deploy server, and normalizes what it
got. Every field of the config and of the local defaults is read whether or not
it is used. A config of the policy engine is laid over the result.
-/

import WinDep.Deploy.Policy

namespace WinDep.Deploy

open Json Program

/-- The normalized config. -/
structure ZtpConfig where
  mode : Json
  diskRule : Json
  computerName : Json
  imageUrl : Json
  unattend : Members
  confirmWipe : Bool
  hasMachineConfig : Bool
  identity : Identity
  serverUrl : Json
  apiUrl : String
  source : String

/-- The states of a status report. -/
inductive DeployState
  | started
  | progress
  | succeeded
  | failed

def DeployState.text : DeployState → String
  | started => "started"
  | progress => "progress"
  | succeeded => "succeeded"
  | failed => "failed"

def optional : Option String → Json
  | none => .null
  | some s => .str s

/-- Replace every occurrence of a pattern, from left to right, after skipping some characters. -/
def replaceAll (pattern replacement : List Char) : ℕ → List Char → List Char
  | _, [] => []
  | skip + 1, _ :: cs => replaceAll pattern replacement skip cs
  | 0, c :: cs =>
    if pattern.isPrefixOf (c :: cs) then
      replacement ++ replaceAll pattern replacement (pattern.length - 1) cs
    else c :: replaceAll pattern replacement 0 cs

/-- The first of two values that is not null, or the fallback. -/
def pick (a b fallback : Json) : Json :=
  unroll (if isNull a then if isNull b then fallback else b else a)

section

variable (ps : PowerShell)

/-- Assign to a key of a hashtable, which ignores case. -/
def setKey (key : String) (value : Json) : Members → Members
  | [] => [(key, value)]
  | (k, v) :: ms => if ps.eq k key then (k, value) :: ms else (k, v) :: setKey key value ms

def setKeys (entries table : Members) : Members :=
  entries.foldl (fun table e => setKey ps e.1 e.2 table) table

def containsKey (key : String) (table : Members) : Bool := table.any fun e => ps.eq e.1 key

/-! ## The settings file -/

/-- `$settings.PSObject.Properties.Name -contains 'apiUrl' -and $settings.apiUrl` -/
def hasApiUrl (settings : Json) : Except Raised Bool := do
  if ← ps.hasProperty settings "apiUrl" then return truthy (← ps.read settings "apiUrl")
  else return false

/-- Where status reports go. -/
def reportBase (settings : Json) : Except Raised Json := do
  if ← hasApiUrl ps settings then return unroll (← ps.read settings "apiUrl")
  else return unroll (← ps.read settings "serverUrl")

/-- Where the api is, given the server. -/
def apiBase (settings server : Json) : Except Raised Json := do
  if ← hasApiUrl ps settings then return unroll (← trimEndOf (← ps.read settings "apiUrl"))
  else return unroll server

def failActionOf (settings : Json) : Except Raised Json := do
  if ← ps.hasProperty settings "policyFailAction" then
    return unroll (← ps.read settings "policyFailAction")
  else return .str "hold"

/-! ## Requests -/

/-- A status report to the api; only the address is checked. -/
def sendZtpStatus (serverUrl : Json) (identity : Identity) (state : DeployState) (percent : ℤ)
    (message : String) : Calls Unit := do
  let serverUrl ← ps.bindMandatory "ServerUrl" serverUrl
  tell (.sendZtpJson (trimEndSlash serverUrl ++ "/api/report") (.obj [
    ("serial", .str identity.serial), ("mac", optional identity.mac), ("state", .str state.text),
    ("percent", .num (.ofInt percent)), ("message", .str message),
    ("model", optional identity.model)]))

/-- `Invoke-JsonGet`, from the answer to the request. -/
def readJson (uri : String) : HttpAnswer → Except Raised Json
  | .failed message => throw (.thrown message)
  | .answered status body =>
    -- a file that is not there is no error
    if status = 404 then return .null
    else if !isSuccess status then throw (.thrown ("HTTP " ++ toString status ++ " for " ++ uri))
    else return unroll (← ps.convertFromJson body)

def resolvePayload (identity : Identity) (inventory : Json) : Json :=
  .obj [("serial", .str identity.sanitizedSerial), ("mac", optional identity.mac),
    ("model", optional identity.model), ("inventory", inventory)]

/-- The config in the answer of the resolve endpoint, null on every failure. -/
def resolvedConfig : HttpAnswer → Json
  | .failed _ => .null
  | .answered status body =>
    -- refused by the policy, or not enrolled
    if !isSuccess status then .null
    else
      match ps.convertFromJson body with
      | .ok v => unroll v
      | .error _ => .null

def resolveUri (apiUrl : String) : String := trimEndSlash apiUrl ++ "/api/ztp/resolve"

def invokeZtpResolve (apiUrl : String) (identity : Identity) (inventory : Json) : Calls Json := do
  return resolvedConfig ps (← tell (.postResolve (resolveUri apiUrl)
    (ps.convertToJson (resolvePayload identity inventory))))

/-! ## The normalized config -/

/-- A character that `-replace '[^A-Za-z0-9\-]'` keeps. -/
def nameChar (c : Char) : Bool :=
  ('a' ≤ ps.lower c && ps.lower c ≤ 'z') || ('0' ≤ c && c ≤ '9') || c == '-'

def expandNameTemplate (template : Json) (identity : Identity) : Except Raised Json := do
  let template ← ps.bindString "Template" template
  if template = "" then return .null
  else
    let name := replaceAll "\x7bSERIAL\x7d".toList identity.sanitizedSerial.toList 0 template.toList
    return .str (String.ofList ((name.filter (nameChar ps)).take 15))

/-- The unattend values of a config. -/
def unattendOf (cfg : Json) : Except Raised Members := do
  if truthy cfg then
    if ← ps.hasProperty cfg "unattend" then
      let unattend ← ps.read cfg "unattend"
      return if truthy unattend then setKeys ps (ps.properties unattend) [] else []
    else return []
  else return []

/-- A field of a config, else of the local defaults, else the fallback. -/
def configField (cfg defaults : Json) (name : String) (fallback : Json) : Except Raised Json := do
  return pick (← ps.read cfg name) (← ps.read defaults name) fallback

/-- The config from what the servers gave. -/
def normalizeConfig (settings server : Json) (apiUrl : String) (identity : Identity)
    (cfg : Json) (hasMachineConfig : Bool) (source : String) : Except Raised ZtpConfig := do
  let sd ← ps.read settings "defaults"
  let unattend ← unattendOf ps cfg
  -- both objects are read before one of the values is picked, so both must have the field
  let nameTemplate ← configField ps cfg sd "computerName" (.str "WKS-\x7bSERIAL\x7d")
  let computerName ← expandNameTemplate ps nameTemplate identity
  let mode ← configField ps cfg sd "mode" (.str "interactive")
  let diskRule ← configField ps cfg sd "targetDisk" (.str "largest")
  let imageUrl ← configField ps cfg sd "imageUrl" .null
  let confirmWipe ← configField ps cfg sd "confirmWipe" (.bool true)
  -- the name always replaces the config's own, the serial only fills a gap
  let unattend := setKey ps "COMPUTERNAME" computerName unattend
  let unattend :=
    if containsKey ps "SERIAL" unattend then unattend
    else setKey ps "SERIAL" (.str identity.sanitizedSerial) unattend
  return {
    mode, diskRule, computerName, imageUrl, unattend
    confirmWipe := truthy confirmWipe
    hasMachineConfig, identity
    serverUrl := server
    apiUrl, source }

/-- A value whose error was caught. -/
def orNull : Except Raised Json → Json
  | .ok v => v
  | .error _ => .null

def defaultUri (server : Json) : String := ps.expand server ++ "/config/default.json"

/-- The default config, null if it cannot be had. -/
def defaultConfig (server : Json) : Calls Json := do
  return orNull (readJson ps (defaultUri ps server) (← tell (.get (defaultUri ps server))))

def getZtpConfig (inventory : Json) : Calls ZtpConfig := do
  let settings ← getZtpSettings
  let server ← trimEndOf (← ps.read settings "serverUrl")
  let api ← apiBase ps settings server
  let identity ← getMachineIdentity
  let apiUrl ← ps.bindMandatory "ApiUrl" api
  let resolved ← invokeZtpResolve ps apiUrl identity inventory
  -- what the api resolves authorizes the machine, a default config does not
  if truthy resolved then
    normalizeConfig ps settings server apiUrl identity resolved true (apiUrl ++ "/api/ztp/resolve")
  else
    let cfg ← defaultConfig ps server
    normalizeConfig ps settings server apiUrl identity cfg false
      (if truthy cfg then defaultUri ps server
        else "(no server config — using local defaults)")

/-! ## The config of the policy engine -/

/-- The value of a property that counts as true. -/
def given (p : Json) (name : String) : Except Raised (Option Json) := do
  if ← ps.hasProperty p name then
    let v ← ps.read p name
    return if truthy v then some v else none
  else return none

/-- Lay the config of the policy engine, which counts as true, over a config: only what it gives
overrides. -/
def mergePolicyConfig (cfg : ZtpConfig) (p : Json) : Except Raised ZtpConfig := do
  let mode ← given ps p "mode"
  let targetDisk ← given ps p "targetDisk"
  let computerName ← given ps p "computerName"
  let imageUrl ← given ps p "imageUrl"
  let unattend ← given ps p "unattend"
  -- the unattend values that are given come after the name, and may replace it
  let named := match computerName with
    | some name => setKey ps "COMPUTERNAME" name cfg.unattend
    | none => cfg.unattend
  return { cfg with
    mode := mode.getD cfg.mode
    diskRule := targetDisk.getD cfg.diskRule
    computerName := computerName.getD cfg.computerName
    imageUrl := imageUrl.getD cfg.imageUrl
    unattend := setKeys ps ((unattend.map ps.properties).getD []) named }

/-- What both entry points do with the config of a decision. -/
def overlay (decision : PolicyDecision) (cfg : ZtpConfig) : Except Raised ZtpConfig :=
  if truthy decision.config then mergePolicyConfig ps cfg decision.config else return cfg

/-- `$cfg.HasMachineConfig -and $cfg.Mode -ne 'interactive'` -/
def goesZeroTouch (cfg : ZtpConfig) : Bool :=
  cfg.hasMachineConfig && ps.ne cfg.mode "interactive"

/-- The text of a decision in a status report. -/
def policyMessage (decision : PolicyDecision) : String :=
  "Policy " ++ decision.action ++ ": " ++ "; ".intercalate decision.reasons

end

end WinDep.Deploy
