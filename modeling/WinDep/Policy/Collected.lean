/-
# The policy over collected inventories

The policy cannot judge an inventory that leaves members out, or has members of
another type. An inventory that was collected leaves nothing out: what a probe
does not find is written as null or unknown, and denied. What the policy then
says of a machine is stated here over what the probes find. Only the version of
the firmware can go unjudged.
-/

import WinDep.Data.JsonSchema
import WinDep.Deploy.Inventory
import WinDep.Policy.Windep

namespace WinDep

/-! ## Rounding -/

namespace Deploy

/-- Rounding reaches an even number from half below it. -/
theorem le_roundHalfEven_iff {a b k : ℕ} (hb : 0 < b) (hk : k % 2 = 0) :
    k ≤ roundHalfEven a b ↔ (2 * k - 1) * b ≤ 2 * a := by
  have hdiv : b * (a / b) + a % b = a := Nat.div_add_mod a b
  have hmod : a % b < b := Nat.mod_lt a hb
  unfold roundHalfEven
  generalize a / b = q, a % b = r at hdiv hmod ⊢
  subst hdiv
  dsimp only
  have hdouble : 2 * q * b = 2 * (b * q) := by ring
  rcases lt_trichotomy k (q + 1) with hlt | rfl | hgt
  · -- the quotient is enough
    have hmul : (2 * k - 1) * b ≤ 2 * q * b := Nat.mul_le_mul_right b (by omega)
    refine iff_of_true ?_ (by omega)
    split_ifs <;> omega
  · -- the next integer is even, so a tie goes up to it
    have hmul : (2 * (q + 1) - 1) * b = 2 * (b * q) + b := by
      rw [show 2 * (q + 1) - 1 = 2 * q + 1 by omega]
      ring
    rw [hmul]
    split_ifs <;> omega
  · -- more than the next integer is out of reach
    have hmul : (2 * q + 3) * b ≤ (2 * k - 1) * b := Nat.mul_le_mul_right b (by omega)
    have hsum : (2 * q + 3) * b = 2 * (b * q) + 3 * b := by ring
    refine iff_of_false ?_ (by omega)
    split_ifs <;> omega

/-- The sizes of the disks that are listed. -/
def Machine.diskSizes (toInt : String → Option ℤ) (m : Machine) : List ℕ :=
  let ds := m.physicalDisks.getD []
  if ds ≠ [] ∧ ∀ d ∈ ds, (toInt d.deviceId).isSome = true then ds.map PhysicalDisk.size
  else m.diskDrives.map DiskDrive.size

end Deploy

namespace Policy

open Json Rego Deploy

/-! ## What the policy reads -/

variable {ps : PowerShell} {toInt : String → Option ℤ} {le : String → String → Bool} {m : Machine}
  {bootMethod : String} {semverCompare : String → String → Option ℤ}
  {sprintf : String → List Json → String}

/-- A size that is listed is below the limit exactly if it is not rounded up to it. -/
theorem ltNumber_roundGB {bytes digits limit : ℕ} (heven : limit * 10 ^ digits % 2 = 0) :
    ltNumber (roundGB bytes digits) limit = false ↔
      (2 * (limit * 10 ^ digits) - 1) * 2 ^ 30 ≤ 2 * (bytes * 10 ^ digits) := by
  rw [← le_roundHalfEven_iff (by norm_num) heven, roundGB, ltNumber, decide_eq_false_iff_not,
    not_lt, Number.toRat_ofDecimal, le_div_iff₀ (by positivity)]
  exact_mod_cast Iff.rfl

/-- Every disk is listed with its size. -/
theorem sizes_diskObjects (p : Option Json → Prop) :
    (∃ d ∈ diskObjects ps toInt le m, p (ref d ["sizeGB"])) ↔
      ∃ size ∈ m.diskSizes toInt, p (some (roundGB size 0)) := by
  have hphysical (d : PhysicalDisk) (i : ℤ) :
      ref (physicalDiskObject d i) ["sizeGB"] = some (roundGB d.size 0) := rfl
  have hdrive (d : DiskDrive) :
      ref (diskDriveObject ps d) ["sizeGB"] = some (roundGB d.size 0) := rfl
  unfold diskObjects Machine.diskSizes
  by_cases h : m.physicalDisks.getD [] ≠ [] ∧
      ∀ d ∈ m.physicalDisks.getD [], (toInt d.deviceId).isSome = true
  · have hobjects : physicalDiskObjects toInt le m = _ :=
      if_pos (List.all_eq_true.mpr fun d hd => h.2 d (List.mem_mergeSort.mp hd))
    split
    · next hnil =>
      rw [hobjects, List.map_eq_nil_iff, ← List.length_eq_zero_iff, List.length_mergeSort,
        List.length_eq_zero_iff] at hnil
      exact absurd hnil h.1
    · rw [hobjects, if_pos h]
      simp [hphysical]
  · have hobjects : physicalDiskObjects toInt le m = [] := by
      unfold physicalDiskObjects
      dsimp only
      split_ifs with hall
      · -- only an empty list of disks is left
        have hnil : m.physicalDisks.getD [] = [] := by
          by_contra hne
          exact h ⟨hne, fun d hd => List.all_eq_true.mp hall d (List.mem_mergeSort.mpr hd)⟩
        simp [hnil]
      · rfl
    rw [hobjects, if_neg h]
    simp [hdrive]

/-- What the policy asks of a machine, over what the probes find. -/
def Compliant (toInt : String → Option ℤ) (semverCompare : String → String → Option ℤ)
    (m : Machine) : Requirement → Prop
  | .firmware => m.peFirmwareType = some 2
  | .secureBoot => m.confirmSecureBoot = some true ∨
      m.confirmSecureBoot = none ∧ m.uefiSecureBootEnabled = some 1
  | .tpm => m.tpm.isSome = true
  | .tpmVersion => m.tpm.isSome = true → m.tpmVersion = some "2.0"
  -- 7.95 GB are enough
  | .memory => 159 * 2 ^ 30 ≤ 20 * m.memoryBytes
  -- 239.5 GB are enough
  | .disk => ∃ size ∈ m.diskSizes toInt, 479 * 2 ^ 30 ≤ 2 * size
  | .model => ∃ model ∈ allowedModels, m.model = some model
  | .bios => ∀ model req c, m.model = some model → minBios.lookup model = some req →
      semverCompare m.biosVersion req = some c → 0 ≤ c

theorem firmwareType_eq_UEFI : m.firmwareType = "UEFI" ↔ m.peFirmwareType = some 2 := by
  unfold Machine.firmwareType
  split <;> simp_all

theorem secureBoot_eq_on : m.secureBoot = "on" ↔ m.confirmSecureBoot = some true ∨
    m.confirmSecureBoot = none ∧ m.uefiSecureBootEnabled = some 1 := by
  unfold Machine.secureBoot
  split
  · simp_all
  · simp_all
  · split <;> simp_all

theorem optional_eq_str {o : Option String} {s : String} :
    Deploy.optional o = .str s ↔ o = some s := by
  cases o <;> simp [Deploy.optional]

/-- A rule does not fire exactly if the machine shows what it asks for. -/
theorem not_flagged_collected (r : Requirement) :
    ¬ Flagged semverCompare (getInventoryOf ps toInt le m bootMethod) r ↔
      Compliant toInt semverCompare m r := by
  have hmodel : model (getInventoryOf ps toInt le m bootMethod) =
      some (Deploy.optional m.model) := rfl
  cases r with
  | firmware =>
    have hread : firmwareType (getInventoryOf ps toInt le m bootMethod) =
        some (.str m.firmwareType) := rfl
    simp [Flagged, Compliant, hread, firmwareType_eq_UEFI]
  | secureBoot =>
    have hread : secureBoot (getInventoryOf ps toInt le m bootMethod) =
        some (.str m.secureBoot) := rfl
    simp only [Flagged, Compliant, hread, ← secureBoot_eq_on]
    simp
  | tpm =>
    have hread : tpmPresent (getInventoryOf ps toInt le m bootMethod) =
        some (.bool m.tpm.isSome) := rfl
    simp [Flagged, Compliant, hread, Option.isSome_iff_ne_none]
  | tpmVersion =>
    have hread : tpmPresent (getInventoryOf ps toInt le m bootMethod) =
        some (.bool m.tpm.isSome) := rfl
    have hversion : tpmVersion (getInventoryOf ps toInt le m bootMethod) =
        some (Deploy.optional m.tpmVersion) := rfl
    simp [Flagged, Compliant, hread, hversion, holds, optional_eq_str]
  | memory =>
    have hread : totalGB (getInventoryOf ps toInt le m bootMethod) =
        some (roundGB m.memoryBytes 1) := rfl
    have hlt := @ltNumber_roundGB m.memoryBytes 1 minRamGb (by decide)
    simp only [Flagged, Compliant, hread, Option.some.injEq, exists_eq_left', Bool.not_eq_true]
    rw [hlt, minRamGb]
    omega
  | disk =>
    have hread : disks (getInventoryOf ps toInt le m bootMethod) =
        some (.arr (diskObjects ps toInt le m)) := rfl
    have hlt (size : ℕ) := @ltNumber_roundGB size 0 minDiskGb (by decide)
    have hsizes := @sizes_diskObjects ps toInt le m fun w =>
      ¬ ∃ v, w = some v ∧ ltNumber v minDiskGb = true
    simp only [Flagged, Compliant, hread, Option.bind_some, elements, Option.some.injEq,
      exists_eq_left']
    rw [not_forall]
    simp only [Classical.not_imp]
    rw [hsizes]
    simp only [Option.some.injEq, exists_eq_left', Bool.not_eq_true, hlt]
    refine exists_congr fun size => and_congr_right fun _ => ?_
    rw [minDiskGb]
    omega
  | model =>
    simp only [Flagged, Compliant, hmodel, Option.some.injEq, exists_eq_left', ← optional_eq_str]
    push Not
    rfl
  | bios =>
    have hread : biosVersion (getInventoryOf ps toInt le m bootMethod) =
        some (.str m.biosVersion) := rfl
    simp only [Flagged, Compliant, hmodel, hread, Option.some.injEq, optional_eq_str,
      Json.str.injEq]
    push Not
    constructor
    · intro h model req c hm hreq hc
      exact h model req _ c hm hreq rfl hc
    · rintro h model req _ c hm hreq rfl hc
      exact h model req c hm hreq hc

/-- **The policy over what was collected.** Whatever the probes find, the policy allows the
inventory exactly if the machine is compliant, so a probe that fails denies. What it allows meets
every requirement, but for a version of the firmware that cannot be compared. -/
theorem decision_collected (sprintf : String → List Json → String)
    (semverCompare : String → String → Option ℤ) (ps : PowerShell) (toInt : String → Option ℤ)
    (le : String → String → Bool) (m : Machine) (bootMethod : String) :
    ((decision sprintf semverCompare (getInventoryOf ps toInt le m bootMethod)).action = "allow" ↔
        ∀ r, Compliant toInt semverCompare m r) ∧
      ((∀ r, Compliant toInt semverCompare m r) → ∀ r,
        Met semverCompare (getInventoryOf ps toInt le m bootMethod) r ∨
          r = .bios ∧ ∀ model req, m.model = some model → minBios.lookup model = some req →
            semverCompare m.biosVersion req = none) := by
  have hnot : (∀ r, ¬ Flagged semverCompare (getInventoryOf ps toInt le m bootMethod) r) ↔
      ∀ r, Compliant toInt semverCompare m r :=
    forall_congr' fun r => not_flagged_collected r
  refine ⟨decision_allow_iff.trans hnot, fun h r => ?_⟩
  rcases met_or_unjudged (hnot.mpr h) r with hmet | hunjudged
  · exact .inl hmet
  have hread : model (getInventoryOf ps toInt le m bootMethod) =
      some (Deploy.optional m.model) := rfl
  cases r with
  | firmware | secureBoot | tpmVersion => cases hunjudged
  | tpm =>
    obtain ⟨v, hv, hbool⟩ := hunjudged
    exact absurd (Option.some.inj hv).symm (hbool m.tpm.isSome)
  | memory =>
    rcases hunjudged _ rfl with ⟨s, hs⟩ | helements
    · cases hs
    · cases helements
  | disk =>
    -- every size that is listed is a number
    have hsizes := (@sizes_diskObjects ps toInt le m fun w =>
      ∀ v, w = some v → (∃ s, v = .str s) ∨ (elements v).isSome = true).mp
        (hunjudged _ rfl).2
    obtain ⟨size, -, hsize⟩ := hsizes
    rcases hsize _ rfl with ⟨s, hs⟩ | helements
    · cases hs
    · cases helements
  | model => cases hunjudged
  | bios =>
    refine .inr ⟨rfl, fun model req hm hreq => ?_⟩
    rw [Option.eq_none_iff_forall_ne_some]
    exact fun c hc => hunjudged model req _ c (by rw [hread, hm]; rfl) hreq rfl hc

end Policy

end WinDep
