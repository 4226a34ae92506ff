/-
# The deployment policy

The policy lists what is wrong with an inventory and allows the deployment when
nothing is. Each rule compares one member with what is required. A rule whose
member is missing, or of a type its comparison ranks above what is required, does
not fire, so the policy allows some inventories that do not show the machine to
be compliant. It is sound exactly when some other rule fires, or every member the
rules read is there to be judged.
-/

import Mathlib.Algebra.Order.Ring.Rat
import Mathlib.Data.List.ReduceOption
import WinDep.Data.Rego

namespace WinDep.Policy

open Json Rego

def allowedModels : List String :=
  ["OptiPlex 7010", "OptiPlex 7020", "Latitude 5440", "Latitude 7450", "Dell Pro Max 16 MC16250"]

def minRamGb : ℕ := 8

def minDiskGb : ℕ := 240

/-- Minimum BIOS version per model. -/
def minBios : List (String × String) :=
  [("OptiPlex 7010", "1.28.0"), ("OptiPlex 7020", "1.6.0"), ("Latitude 5440", "1.15.0"),
    ("Latitude 7450", "1.4.0"), ("Dell Pro Max 16 MC16250", "1.4.0")]

structure Violation where
  reason : String
  remediation : String
  deriving DecidableEq

def number (n : ℕ) : Json := .num (.ofInt n)

/-! ## The rules -/

section

variable (sprintf : String → List Json → String) (semverCompare : String → String → Option ℤ)
  (input : Json)

def firmwareType : Option Json := ref input ["firmware", "firmwareType"]

def secureBoot : Option Json := ref input ["firmware", "secureBoot"]

def tpmPresent : Option Json := ref input ["security", "tpmPresent"]

def tpmVersion : Option Json := ref input ["security", "tpmVersion"]

def totalGB : Option Json := ref input ["memory", "totalGB"]

def disks : Option Json := ref input ["storage", "disks"]

def model : Option Json := ref input ["system", "model"]

def biosVersion : Option Json := ref input ["firmware", "biosVersion"]

def firmwareRule : Option Violation :=
  if test (firmwareType input) fun v => !eqString v "UEFI" then
    some ⟨"Firmware is not booted in UEFI mode",
      "Enable UEFI and disable Legacy/CSM in firmware setup"⟩
  else none

def secureBootRule : Option Violation := do
  let v ← secureBoot input
  if eqString v "on" then none
  else some ⟨sprintf "Secure Boot is %v" [v], "Enable Secure Boot in firmware setup"⟩

def tpmRule : Option Violation :=
  -- written with a negation, so a missing member fires
  if holds (tpmPresent input) then none
  else some ⟨"No TPM detected", "Enable the TPM / Intel PTT / AMD fTPM in firmware setup"⟩

def tpmVersionRule : Option Violation := do
  if holds (tpmPresent input) then
    let v ← tpmVersion input
    if eqString v "2.0" then none
    else some ⟨sprintf "TPM %v present; 2.0 required" [v], "Provision or upgrade to TPM 2.0"⟩
  else none

def memoryRule : Option Violation := do
  let v ← totalGB input
  if ltNumber v minRamGb then
    some ⟨sprintf "%vGB RAM installed; %vGB required" [v, number minRamGb],
      sprintf "Install at least %vGB RAM" [number minRamGb]⟩
  else none

def diskRule : Option Violation :=
  if every (disks input) fun d => test (ref d ["sizeGB"]) fun v => ltNumber v minDiskGb then
    some ⟨sprintf "No disk of at least %vGB found" [number minDiskGb],
      sprintf "Install a disk of at least %vGB" [number minDiskGb]⟩
  else none

/-- The reason names the model, so without a model the rule has no head to produce. -/
def modelRule : Option Violation :=
  if test (model input) fun v => allowedModels.any (eqString v) then none
  else do
    let v ← model input
    some ⟨sprintf "Model %q is not in the approved list" [v],
      "Use an approved hardware model, or add it to allowed_models"⟩

def biosRule : Option Violation := do
  let m ← model input
  let req ← m.str?.bind fun k => minBios.lookup k
  let v ← biosVersion input
  let c ← v.str?.bind fun s => semverCompare s req
  if c < 0 then
    some ⟨sprintf "BIOS %v is below the required %v for %v" [v, .str req, m],
      sprintf "Update BIOS to %v or newer" [.str req]⟩
  else none

def violations : List Violation :=
  [firmwareRule input, secureBootRule sprintf input, tpmRule input, tpmVersionRule sprintf input,
    memoryRule sprintf input, diskRule sprintf input, modelRule sprintf input,
    biosRule sprintf semverCompare input].reduceOption

/-! ## The decision -/

structure Decision where
  action : String
  allow : Bool
  reasons : List String
  remediations : List String
  deriving DecidableEq

def sort (texts : List String) : List String := texts.mergeSort fun a b => a ≤ b

def decision : Decision :=
  let vs := violations sprintf semverCompare input
  if vs.length = 0 then ⟨"allow", true, [], []⟩
  else
    ⟨"deny", false, sort (vs.map Violation.reason),
      sort ((vs.map Violation.remediation).filter (· ≠ ""))⟩

end

/-! ## What the rules judge -/

inductive Requirement
  | firmware
  | secureBoot
  | tpm
  | tpmVersion
  | memory
  | disk
  | model
  | bios
  deriving DecidableEq

variable (semverCompare : String → String → Option ℤ) (input : Json)

/-- The inventory shows that the requirement is met. -/
def Met : Requirement → Prop
  | .firmware => firmwareType input = some (.str "UEFI")
  | .secureBoot => secureBoot input = some (.str "on")
  | .tpm => tpmPresent input = some (.bool true)
  | .tpmVersion => tpmVersion input = some (.str "2.0")
  | .memory => ∃ n, totalGB input = some (.num n) ∧ (minRamGb : ℚ) ≤ n.toRat
  | .disk => ∃ items d n, (disks input).bind elements = some items ∧ d ∈ items ∧
      ref d ["sizeGB"] = some (.num n) ∧ (minDiskGb : ℚ) ≤ n.toRat
  | .model => ∃ m ∈ allowedModels, model input = some (.str m)
  | .bios => ∃ m req s c, model input = some (.str m) ∧ minBios.lookup m = some req ∧
      biosVersion input = some (.str s) ∧ semverCompare s req = some c ∧ 0 ≤ c

/-- The member is there and its comparison shows that the requirement is not met. A TPM that is
not reported counts as none. -/
def Flagged : Requirement → Prop
  | .firmware => ∃ v, firmwareType input = some v ∧ v ≠ .str "UEFI"
  | .secureBoot => ∃ v, secureBoot input = some v ∧ v ≠ .str "on"
  | .tpm => tpmPresent input = none ∨ tpmPresent input = some (.bool false)
  | .tpmVersion => holds (tpmPresent input) = true ∧ ∃ v, tpmVersion input = some v ∧ v ≠ .str "2.0"
  | .memory => ∃ v, totalGB input = some v ∧ ltNumber v minRamGb = true
  | .disk => ∃ items, (disks input).bind elements = some items ∧
      ∀ d ∈ items, ∃ v, ref d ["sizeGB"] = some v ∧ ltNumber v minDiskGb = true
  | .model => ∃ v, model input = some v ∧ ∀ m ∈ allowedModels, v ≠ .str m
  | .bios => ∃ m req s c, model input = some (.str m) ∧ minBios.lookup m = some req ∧
      biosVersion input = some (.str s) ∧ semverCompare s req = some c ∧ c < 0

/-- The member a rule reads is missing, or of a type or form its comparison does not judge. -/
def Unjudged : Requirement → Prop
  | .firmware => firmwareType input = none
  | .secureBoot => secureBoot input = none
  | .tpm => ∃ v, tpmPresent input = some v ∧ ∀ b, v ≠ .bool b
  | .tpmVersion => tpmVersion input = none
  | .memory => ∀ v, totalGB input = some v → (∃ s, v = .str s) ∨ (elements v).isSome = true
  | .disk => ∀ items, (disks input).bind elements = some items →
      (∀ d ∈ items, ∀ n, ref d ["sizeGB"] = some (.num n) → n.toRat < minDiskGb) ∧
        ∃ d ∈ items, ∀ v, ref d ["sizeGB"] = some v → (∃ s, v = .str s) ∨ (elements v).isSome = true
  | .model => model input = none
  | .bios => ∀ m req s c, model input = some (.str m) → minBios.lookup m = some req →
      biosVersion input = some (.str s) → semverCompare s req ≠ some c

variable {semverCompare : String → String → Option ℤ} {input : Json}
  {sprintf : String → List Json → String}

/-! ### One rule at a time -/

theorem firmwareRule_eq_none :
    firmwareRule input = none ↔ ¬ Flagged semverCompare input .firmware := by
  simp [firmwareRule, Flagged, test_iff, ← eqString_iff]

theorem secureBootRule_eq_none :
    secureBootRule sprintf input = none ↔ ¬ Flagged semverCompare input .secureBoot := by
  simp [secureBootRule, Flagged, ← eqString_iff]

theorem tpmRule_eq_none : tpmRule input = none ↔ ¬ Flagged semverCompare input .tpm := by
  rw [tpmRule, Flagged, ← holds_eq_false_iff]
  simp

theorem tpmVersionRule_eq_none :
    tpmVersionRule sprintf input = none ↔ ¬ Flagged semverCompare input .tpmVersion := by
  simp [tpmVersionRule, Flagged, ← eqString_iff]

theorem memoryRule_eq_none :
    memoryRule sprintf input = none ↔ ¬ Flagged semverCompare input .memory := by
  simp [memoryRule, Flagged]

theorem diskRule_eq_none :
    diskRule sprintf input = none ↔ ¬ Flagged semverCompare input .disk := by
  simp [diskRule, Flagged, every_iff, test_iff]

theorem modelRule_eq_none :
    modelRule sprintf input = none ↔ ¬ Flagged semverCompare input .model := by
  have hallowed (v : Json) : allowedModels.any (eqString v) = true ↔
      ∃ m ∈ allowedModels, v = .str m := by
    simp only [List.any_eq_true, eqString_iff]
  cases hmodel : model input with
  | none => simp [modelRule, Flagged, hmodel, test]
  | some v => simp [modelRule, Flagged, hmodel, test_iff, hallowed]

theorem biosRule_eq_none :
    biosRule sprintf semverCompare input = none ↔ ¬ Flagged semverCompare input .bios := by
  simp only [biosRule, Flagged, Option.bind_eq_bind, Option.bind_eq_none_iff,
    Option.bind_eq_some_iff, str?_eq_some, ite_eq_right_iff, reduceCtorEq, imp_false]
  constructor
  · rintro h ⟨m, req, s, c, hmodel, hreq, hversion, hcompare, hc⟩
    exact h _ hmodel req ⟨m, rfl, hreq⟩ _ hversion c ⟨s, rfl, hcompare⟩ hc
  · rintro h _ hmodel req ⟨m, rfl, hreq⟩ _ hversion c ⟨s, rfl, hcompare⟩ hc
    exact h ⟨m, req, s, c, hmodel, hreq, hversion, hcompare, hc⟩

/-- The policy allows exactly the inventories no rule flags. -/
theorem decision_allow_iff :
    (decision sprintf semverCompare input).action = "allow" ↔
      ∀ r, ¬ Flagged semverCompare input r := by
  have hnone : (violations sprintf semverCompare input).length = 0 ↔
      ∀ r, ¬ Flagged semverCompare input r := by
    rw [List.length_eq_zero_iff, violations, List.reduceOption, List.filterMap_eq_nil_iff]
    simp only [List.mem_cons, List.not_mem_nil, or_false, forall_eq_or_imp, forall_eq, id_eq,
      @firmwareRule_eq_none semverCompare, @secureBootRule_eq_none semverCompare,
      @tpmRule_eq_none semverCompare, @tpmVersionRule_eq_none semverCompare,
      @memoryRule_eq_none semverCompare, @diskRule_eq_none semverCompare,
      @modelRule_eq_none semverCompare, biosRule_eq_none]
    constructor
    · rintro ⟨h1, h2, h3, h4, h5, h6, h7, h8⟩ (_ | _)
      all_goals assumption
    · intro h
      exact ⟨h _, h _, h _, h _, h _, h _, h _, h _⟩
  rw [← hnone, decision]
  split_ifs with h
  · exact iff_of_true rfl h
  · exact iff_of_false (by simp) h

/-! ### Met, flagged and unjudged -/

theorem Met.not_unjudged {r : Requirement} (h : Met semverCompare input r) :
    ¬ Unjudged semverCompare input r := by
  -- a member that shows its requirement met is there, and of the type that is compared
  cases r with
  | firmware | secureBoot | tpmVersion => simp_all [Met, Unjudged]
  | tpm => simp_all [Met, Unjudged]
  | memory =>
    obtain ⟨n, htotal, -⟩ := h
    intro hun
    rcases hun _ htotal with ⟨s, ⟨⟩⟩ | hcollection
    simp [elements] at hcollection
  | disk =>
    obtain ⟨items, d, n, hitems, hd, hsize, hle⟩ := h
    intro hun
    exact absurd ((hun items hitems).1 d hd n hsize) (not_lt.mpr hle)
  | model =>
    obtain ⟨m, -, hm⟩ := h
    simp [Unjudged, hm]
  | bios =>
    obtain ⟨m, req, s, c, hmodel, hreq, hversion, hcompare, -⟩ := h
    intro hun
    exact hun m req s c hmodel hreq hversion hcompare

/-- What no rule flags is met or could not be judged. -/
theorem met_or_unjudged (h : ∀ r, ¬ Flagged semverCompare input r) (r : Requirement) :
    Met semverCompare input r ∨ Unjudged semverCompare input r := by
  have hr := h r
  cases r with
  | firmware =>
    cases hv : firmwareType input with
    | none => exact Or.inr hv
    | some v => exact Or.inl (by simpa [Flagged, Met, hv] using hr)
  | secureBoot =>
    cases hv : secureBoot input with
    | none => exact Or.inr hv
    | some v => exact Or.inl (by simpa [Flagged, Met, hv] using hr)
  | tpm =>
    rw [Flagged, not_or] at hr
    cases hv : tpmPresent input with
    | none => exact absurd hv hr.1
    | some v =>
      cases v with
      | bool b =>
        cases b with
        | false => exact absurd hv hr.2
        | true => exact Or.inl hv
      -- any other value counts as a TPM
      | _ => exact Or.inr ⟨_, hv, by simp⟩
  | tpmVersion =>
    -- without a TPM another rule would have fired
    have htpm : holds (tpmPresent input) = true := by
      by_contra hfalse
      exact h .tpm (holds_eq_false_iff.mp (by simpa using hfalse))
    cases hv : tpmVersion input with
    | none => exact Or.inr hv
    | some v => exact Or.inl (by simpa [Flagged, Met, hv, htpm] using hr)
  | memory =>
    cases hv : totalGB input with
    | none => exact Or.inr (by simp [Unjudged, hv])
    | some v =>
      have hlt : ltNumber v minRamGb = false := by simpa [Flagged, hv] using hr
      rcases ltNumber_eq_false_iff.mp hlt with ⟨n, rfl, hle⟩ | hother
      · exact Or.inl ⟨n, hv, hle⟩
      · apply Or.inr
        intro w hw
        rw [hv, Option.some.injEq] at hw
        exact hw ▸ hother
  | disk =>
    by_cases hmet : Met semverCompare input .disk
    · exact Or.inl hmet
    refine Or.inr fun items hitems => ⟨fun d hd n hsize => ?_, ?_⟩
    · by_contra hle
      exact hmet ⟨items, d, n, hitems, hd, hsize, not_lt.mp hle⟩
    · -- some entry is not below the limit, and it is no number
      rw [Flagged] at hr
      push Not at hr
      obtain ⟨d, hd, hsize⟩ := hr items hitems
      refine ⟨d, hd, fun v hv => ?_⟩
      rcases ltNumber_eq_false_iff.mp (by simpa using hsize v hv) with ⟨n, rfl, hle⟩ | hother
      · exact absurd ⟨items, d, n, hitems, hd, hv, hle⟩ hmet
      · exact hother
  | model =>
    cases hv : model input with
    | none => exact Or.inr hv
    | some v =>
      rw [Flagged] at hr
      push Not at hr
      obtain ⟨m, hm, rfl⟩ := hr v hv
      exact Or.inl ⟨m, hm, hv⟩
  | bios =>
    by_cases hmet : Met semverCompare input .bios
    · exact Or.inl hmet
    apply Or.inr
    intro m req s c hmodel hreq hversion hcompare
    by_cases hc : c < 0
    · exact hr ⟨m, req, s, c, hmodel, hreq, hversion, hcompare, hc⟩
    · exact hmet ⟨m, req, s, c, hmodel, hreq, hversion, hcompare, not_lt.mp hc⟩

/-- **Soundness.** What the policy allows meets every requirement, if and only if some rule
flags the inventory or every member is there to be judged. -/
theorem decision_sound_iff (sprintf : String → List Json → String)
    (semverCompare : String → String → Option ℤ) (input : Json) :
    ((decision sprintf semverCompare input).action = "allow" →
        ∀ r, Met semverCompare input r) ↔
      (∃ r, Flagged semverCompare input r) ∨ ∀ r, ¬ Unjudged semverCompare input r := by
  rw [decision_allow_iff]
  constructor
  · intro hsound
    by_cases hflag : ∃ r, Flagged semverCompare input r
    · exact Or.inl hflag
    · exact Or.inr fun r => (hsound (not_exists.mp hflag) r).not_unjudged
  · rintro (⟨r, hr⟩ | hjudged) hnone
    · exact absurd hr (hnone r)
    · exact fun r => (met_or_unjudged hnone r).resolve_right (hjudged r)

/-- The inventory of a compliant machine without its firmware section. -/
def noFirmware : Json :=
  .obj [("memory", .obj [("totalGB", number 16)]),
    ("security", .obj [("tpmPresent", .bool true), ("tpmVersion", .str "2.0")]),
    ("storage", .obj [("disks", .arr [.obj [("sizeGB", number 476)]])]),
    ("system", .obj [("model", .str "OptiPlex 7010")])]

/-- Nothing is known of its firmware, yet it is allowed. -/
theorem noFirmware_allowed :
    ¬ ∃ (sprintf : String → List Json → String) (semverCompare : String → String → Option ℤ),
      (decision sprintf semverCompare noFirmware).action = "allow" →
        ∀ r, Met semverCompare noFirmware r := by
  rintro ⟨sprintf, semverCompare, h⟩
  have htotal : totalGB noFirmware = some (number 16) := rfl
  have hdisks : (disks noFirmware).bind elements = some [.obj [("sizeGB", number 476)]] := rfl
  have hversion : biosVersion noFirmware = none := rfl
  have hallow : (decision sprintf semverCompare noFirmware).action = "allow" := by
    rw [decision_allow_iff]
    rintro (_ | _) hflag
    · obtain ⟨v, ⟨⟩, -⟩ := hflag
    · obtain ⟨v, ⟨⟩, -⟩ := hflag
    · have htpm : tpmPresent noFirmware = some (.bool true) := rfl
      simp [Flagged, htpm] at hflag
    · obtain ⟨-, v, ⟨⟩, hne⟩ := hflag
      exact hne rfl
    · obtain ⟨v, hv, hlt⟩ := hflag
      rw [htotal, Option.some.injEq] at hv
      subst hv
      norm_num [number, ltNumber, minRamGb] at hlt
    · obtain ⟨items, hitems, hall⟩ := hflag
      rw [hdisks, Option.some.injEq] at hitems
      subst hitems
      obtain ⟨v, hv, hlt⟩ := hall _ List.mem_cons_self
      obtain rfl : number 476 = v := Option.some.inj hv
      norm_num [number, ltNumber, minDiskGb] at hlt
    · obtain ⟨v, ⟨⟩, hne⟩ := hflag
      exact hne _ List.mem_cons_self rfl
    · obtain ⟨m, req, s, c, -, -, hv, -⟩ := hflag
      rw [hversion] at hv
      simp at hv
  exact Met.not_unjudged (h hallow .firmware) rfl

end WinDep.Policy
