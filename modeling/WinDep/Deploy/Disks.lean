/-
# The disk that is erased

`Get-DeployDisks` lists the disk drives of the machine that are not removable.
The operator picks one of them, and a rule names one: a number its index, and a
word the lowest index or the largest size. A size is rounded to whole gigabytes
before it is compared.
-/

import WinDep.Deploy.Gate
import WinDep.Deploy.Inventory
import WinDep.Deploy.Planned

namespace WinDep.Deploy

open Json Program

/-- An object of `Get-DeployDisks`. -/
structure DeployDisk where
  index : ℤ
  model : String
  sizeGB : ℕ
  bus : Option String

/-- `Sort-Object`, which leaves the order of items with one key open. -/
structure SortObject where
  sort {α : Type} (key : α → ℤ) (descending : Bool) (items : List α) : List α
  perm {α : Type} (key : α → ℤ) (descending : Bool) (items : List α) :
    (sort key descending items).Perm items
  sorted {α : Type} (key : α → ℤ) (descending : Bool) (items : List α) :
    (sort key descending items).Pairwise 
      fun x y => if descending then key y ≤ key x else key x ≤ key y

section

variable (ps : PowerShell) (so : SortObject) (isDigit : Char → Bool) (toInt : String → Option ℤ)

/-- `$_.MediaType -notmatch 'Removable'` -/
def isFixed (d : DiskDrive) : Bool := !isMatch (anyWord ps ["Removable"]) (d.mediaType.getD "")

/-- `[int]` of a value that is too large for it. -/
def overflow : Raised := .thrown "Value was either too large or too small for an Int32."

def deployDisk (d : DiskDrive) : Except Raised DeployDisk :=
  if 2 ^ 31 ≤ d.index then throw overflow
  else
    match d.model with
    | none => throw (.method "Trim")
    | some model =>
      return ⟨d.index, Window.trimString model, roundHalfEven d.size (2 ^ 30), d.interfaceType⟩

/-- `Get-DeployDisks`, from what the query for disk drives gives. -/
def getDeployDisksOf (query : Except Raised (List DiskDrive)) :
    Except Raised (List DeployDisk) := do
  (so.sort (fun d => (d.index : ℤ)) false ((← query).filter (isFixed ps))).mapM deployDisk

/-- `$Rule -is [int]`, with its value -/
def int? (n : Number) : Option ℤ := n.toInt?.filter fun i => -2 ^ 31 ≤ i && i < 2 ^ 31

/-- `^\d+$` -/
def digits : Regex := .seq .atStart (.seq (.one isDigit) (.seq (.many isDigit) .atEnd))

/-- `[int]$Rule`, of a number and of a text of digits. Other rules are words. -/
def ruleIndex : Json → Option (Except Raised ℤ)
  | .num n => (int? n).map .ok
  | .str s =>
    if isMatch (digits isDigit) s then
      match toInt s with
      | some i => some (.ok i)
      | none => some (.error overflow)
    else none
  | _ => none

/-- The first of the disks that are left; that there is none is found out when its index is read. -/
def firstDisk : List DeployDisk → Except Raised DeployDisk
  | [] => throw (.property "Index")
  | d :: _ => return d

def resolveTargetDiskOf (query : Except Raised (List DiskDrive)) (rule : Json) :
    Except Raised DeployDisk := do
  let disks ← getDeployDisksOf ps so query
  if disks.isEmpty then throw (.thrown "No fixed disks found to deploy to.")
  else
    match ruleIndex isDigit toInt rule with
    | some index =>
      let idx ← index
      match disks.filter fun d => d.index = idx with
      | [] => throw (.thrown ("Requested disk index " ++ toString idx ++ " not present."))
      | d :: _ => return d
    | none =>
      let word := ps.toLower (ps.expand rule)
      if ps.eq word "largest" then firstDisk (so.sort (fun d => (d.sizeGB : ℤ)) true disks)
      else if ps.eq word "first" then firstDisk (so.sort DeployDisk.index false disks)
      else throw (.thrown ("Unknown target-disk rule \x27" ++ ps.expand rule ++
        "\x27 (use \x27largest\x27,\x27first\x27, or an index)."))

end

variable {ps : PowerShell} {so : SortObject} {isDigit : Char → Bool} {toInt : String → Option ℤ}
  {query : Except Raised (List DiskDrive)} {drives : List DiskDrive} {d : DiskDrive}
  {x : DeployDisk} {xs : List DeployDisk} {rule : Json}

/-! ## What a rule names -/

/-- What a rule says of the disk drive that it names, which is one of those that are fixed. -/
inductive Names (ps : PowerShell) (isDigit : Char → Bool) (toInt : String → Option ℤ)
    (drives : List DiskDrive) (rule : Json) (d : DiskDrive) : Prop
  | index (h : ruleIndex isDigit toInt rule = some (.ok d.index))
  | largest (h : ps.eq (ps.toLower (ps.expand rule)) "largest" = true)
      (hmax : ∀ d' ∈ drives, isFixed ps d' → roundHalfEven d'.size (2 ^ 30) ≤
        roundHalfEven d.size (2 ^ 30))
  | first (h : ps.eq (ps.toLower (ps.expand rule)) "first" = true)
      (hmin : ∀ d' ∈ drives, isFixed ps d' → d.index ≤ d'.index)

theorem deployDisk_ok (h : deployDisk d = .ok x) :
    x.index = d.index ∧ x.sizeGB = roundHalfEven d.size (2 ^ 30) := by
  unfold deployDisk at h
  split_ifs at h
  split at h
  · cases h
  · cases h
    exact ⟨rfl, rfl⟩

/-- The disks that are listed are the drives that are fixed. -/
theorem getDeployDisksOf_ok (h : getDeployDisksOf ps so query = .ok xs) :
    ∃ drives, query = .ok drives ∧
      (∀ x ∈ xs, ∃ d ∈ drives, isFixed ps d ∧ deployDisk d = .ok x) ∧
      ∀ d ∈ drives, isFixed ps d → ∃ x ∈ xs, deployDisk d = .ok x := by
  obtain ⟨drives, hquery, hdisks⟩ := bind_eq_ok.mp h
  obtain ⟨hlisted, hlists⟩ := mem_of_mapM hdisks
  have hmem (d : DiskDrive) : d ∈ so.sort (fun d => (d.index : ℤ)) false
      (drives.filter (isFixed ps)) ↔ d ∈ drives ∧ isFixed ps d := by
    rw [(so.perm _ _ _).mem_iff, List.mem_filter]
  refine ⟨drives, hquery, fun x hx => ?_, fun d hd hfixed => hlists d ((hmem d).mpr ⟨hd, hfixed⟩)⟩
  obtain ⟨d, hd, hdx⟩ := hlisted x hx
  exact ⟨d, ((hmem d).mp hd).1, ((hmem d).mp hd).2, hdx⟩

theorem firstDisk_sort {key : DeployDisk → ℤ} {descending : Bool}
    (h : firstDisk (so.sort key descending xs) = .ok x) :
    x ∈ xs ∧ ∀ y ∈ xs, if descending then key y ≤ key x else key x ≤ key y := by
  have hperm := so.perm key descending xs
  have hsorted := so.sorted key descending xs
  cases hsort : so.sort key descending xs with
  | nil =>
    rw [hsort] at h
    cases h
  | cons z zs =>
    rw [hsort] at h hperm hsorted
    cases h
    refine ⟨hperm.mem_iff.mp List.mem_cons_self, fun y hy => ?_⟩
    rcases List.mem_cons.mp (hperm.mem_iff.mpr hy) with rfl | htail
    · cases descending <;> simp
    · exact List.rel_of_pairwise_cons hsorted htail

/-- The disk that is resolved is a fixed drive that the rule names. -/
theorem resolveTargetDiskOf_ok
    (h : resolveTargetDiskOf ps so isDigit toInt query rule = .ok x) :
    ∃ drives, query = .ok drives ∧
      ∃ d ∈ drives, isFixed ps d ∧ x.index = d.index ∧ Names ps isDigit toInt drives rule d := by
  obtain ⟨xs, hxs, h⟩ := bind_eq_ok.mp h
  obtain ⟨drives, hquery, hlisted, hlists⟩ := getDeployDisksOf_ok hxs
  refine ⟨drives, hquery, ?_⟩
  have hdrive (hx : x ∈ xs) : ∃ d ∈ drives, isFixed ps d ∧ x.index = d.index ∧
      x.sizeGB = roundHalfEven d.size (2 ^ 30) := by
    obtain ⟨d, hd, hfixed, hdx⟩ := hlisted x hx
    exact ⟨d, hd, hfixed, deployDisk_ok hdx⟩
  split_ifs at h
  split at h
  · next index hrule =>
    obtain ⟨idx, rfl, hfound⟩ := bind_eq_ok.mp h
    split at hfound
    · cases hfound
    · next x' _ hfilter =>
      cases hfound
      have hx : x ∈ xs.filter fun x => x.index = idx := hfilter ▸ List.mem_cons_self
      obtain ⟨d, hd, hfixed, hindex, -⟩ := hdrive (List.mem_of_mem_filter hx)
      have hidx : x.index = idx := of_decide_eq_true (List.mem_filter.mp hx).2
      refine ⟨d, hd, hfixed, hindex, .index ?_⟩
      rw [hrule, ← hidx, hindex]
  · dsimp only at h
    split_ifs at h with hlargest hfirst
    · obtain ⟨hx, hmax⟩ := firstDisk_sort h
      obtain ⟨d, hd, hfixed, hindex, hsize⟩ := hdrive hx
      refine ⟨d, hd, hfixed, hindex, .largest hlargest fun d' hd' hfixed' => ?_⟩
      obtain ⟨x', hx', hdx'⟩ := hlists d' hd' hfixed'
      have hle := hmax x' hx'
      rw [← hsize, ← (deployDisk_ok hdx').2]
      exact Int.ofNat_le.mp hle
    · obtain ⟨hx, hmin⟩ := firstDisk_sort h
      obtain ⟨d, hd, hfixed, hindex, -⟩ := hdrive hx
      refine ⟨d, hd, hfixed, hindex, .first hfirst fun d' hd' hfixed' => ?_⟩
      obtain ⟨x', hx', hdx'⟩ := hlists d' hd' hfixed'
      have hle := hmin x' hx'
      rw [hindex, (deployDisk_ok hdx').1] at hle
      exact Int.ofNat_le.mp hle

/-! ## Runs -/

/-- The operator picks one of the disks that are listed. -/
def Picked (ps : PowerShell) (so : SortObject) (query : Except Raised (List DiskDrive))
    (form : Window.Form) : Prop :=
  ∀ n, form.disk = some n →
    ∃ xs, getDeployDisksOf ps so query = .ok xs ∧ ∃ x ∈ xs, x.index = n

/-- Rules are resolved against the drives of the machine. -/
def Answers (ps : PowerShell) (so : SortObject) (isDigit : Char → Bool) (toInt : String → Option ℤ)
    (query : Except Raised (List DiskDrive)) : (c : Call) → c.Answer → Prop
  | .resolveTargetDisk rule, r =>
    r = (resolveTargetDiskOf ps so isDigit toInt query rule).map DeployDisk.index
  | _, _ => True

/-- The plan erases a fixed drive of the machine: the one that the operator picked, or one that the
rule of the config names. -/
def Erases (ps : PowerShell) (isDigit : Char → Bool) (toInt : String → Option ℤ)
    (query : Except Raised (List DiskDrive)) (plan : Plan) : Prop :=
  ∃ drives, query = .ok drives ∧ ∃ d ∈ drives, isFixed ps d ∧ plan.diskIndex = d.index ∧
    ((∃ identity form, form.disk = some (d.index : ℤ) ∧
      Window.newInteractivePlan identity form = .ok plan) ∨
    ∃ cfg, Configured ps cfg ∧ Names ps isDigit toInt drives cfg.diskRule d ∧
      plan = zeroTouchPlan d.index cfg)

theorem diskIndex_newInteractivePlan {identity : Identity} {form : Window.Form} {plan : Plan}
    (h : Window.newInteractivePlan identity form = .ok plan) :
    form.disk = some plan.diskIndex := by
  unfold Window.newInteractivePlan at h
  split at h
  · cases h
  · next disk hdisk =>
    rw [hdisk]
    dsimp only at h
    split_ifs at h
    all_goals
      cases h
      rfl

theorem admits_erases : Admits ps (Picked ps so query) (Answers ps so isDigit toInt query)
    (Erases ps isDigit toInt query) where
  interactive identity form plan hform hplan := by
    have hdisk := diskIndex_newInteractivePlan hplan
    obtain ⟨xs, hxs, x, hx, hindex⟩ := hform _ hdisk
    obtain ⟨drives, hquery, hlisted, -⟩ := getDeployDisksOf_ok hxs
    obtain ⟨d, hd, hfixed, hdx⟩ := hlisted x hx
    have hd' : plan.diskIndex = d.index := hindex.symm.trans (deployDisk_ok hdx).1
    exact ⟨drives, hquery, d, hd, hfixed, hd', .inl ⟨identity, form, hd' ▸ hdisk, hplan⟩⟩
  zeroTouch cfg disk hcfg hdisk := by
    cases hx : resolveTargetDiskOf ps so isDigit toInt query cfg.diskRule with
    | error e =>
      rw [Answers, hx] at hdisk
      cases hdisk
    | ok x =>
      rw [Answers, hx] at hdisk
      obtain rfl : disk = x.index := Except.ok.inj hdisk
      obtain ⟨drives, hquery, d, hd, hfixed, hindex, hnames⟩ := resolveTargetDiskOf_ok hx
      exact ⟨drives, hquery, d, hd, hfixed, hindex, .inr ⟨cfg, hcfg, hnames, by rw [hindex]⟩⟩

/-- **The disk that is erased.** Every plan that either program enters, in any run on a machine with
the given drives, erases a fixed one of them: the one that the operator picked from the list, or one
that the rule of the config names. -/
theorem erases_run (ps : PowerShell) (so : SortObject) (isDigit : Char → Bool)
    (toInt : String → Option ℤ) (query : Except Raised (List DiskDrive)) :
    (∀ (identity : Identity) (apiUrl : Json) (inputs : List (Input Window.Event Call.Answer)),
      (∀ i ∈ inputs, i.Granted (Window.Event.Fills (Picked ps so query))
        (Answers ps so isDigit toInt query)) →
      AllEntered (Erases ps isDigit toInt query)
        (Loop.run (Window.handler ps identity apiUrl) inputs .opened).shared.history) ∧
    ∀ (mode : Headless.Mode) (countdownSeconds : ℤ) (force whatIf : Bool)
      (inputs : List (Input Unit Call.Answer)),
      (∀ i ∈ inputs, i.Granted (fun _ => True) (Answers ps so isDigit toInt query)) →
      AllEntered (Erases ps isDigit toInt query)
        (Loop.run (Headless.handler ps mode countdownSeconds force whatIf) inputs
          .started).shared.history :=
  admits_erases.allEntered_run

/-- A sort that is stable. -/
def SortObject.stable : SortObject where
  sort key descending items := items.mergeSort fun x y =>
    if descending then key y ≤ key x else key x ≤ key y
  perm _ _ _ := List.mergeSort_perm _ _
  sorted key descending items := by
    have hpairwise := @List.pairwise_mergeSort _
      fun x y => if descending then key y ≤ key x else key x ≤ key y
    cases descending with
    | false =>
      simpa using hpairwise (fun x y z => by simpa using le_trans) (fun x y => by
        simpa using le_total (key x) (key y)) items
    | true =>
      simpa using hpairwise (fun x y z hxy hyz => by simp at *; omega) (fun x y => by
        simpa using le_total (key y) (key x)) items

/-- The drive of a machine that has one. -/
def oneDrive : DiskDrive :=
  ⟨0, some "SSD", 512110190592, some "Fixed hard disk media", some "SCSI", none⟩

theorem getDeployDisksOf_oneDrive :
    getDeployDisksOf .plain .stable (.ok [oneDrive]) = .ok [⟨0, "SSD", 477, some "SCSI"⟩] := by
  have hfixed : [oneDrive].filter (isFixed .plain) = [oneDrive] :=
    List.filter_eq_self.mpr (by decide)
  have hdisk : deployDisk oneDrive = .ok ⟨0, "SSD", 477, some "SCSI"⟩ := by rfl
  change (SortObject.stable.sort _ false ([oneDrive].filter (isFixed .plain))).mapM deployDisk = _
  rw [hfixed]
  simp [SortObject.stable, hdisk]

def oneDriveAnswers : (c : Call) → c.Answer
  | .resolveTargetDisk rule =>
    (resolveTargetDiskOf .plain .stable Char.isDigit String.toInt? (.ok [oneDrive]) rule).map
      DeployDisk.index
  | c => ungatedAnswers c

/-- The window opens, the policy allows, and the operator erases the disk. -/
def oneDriveInputs : List (Input Window.Event Call.Answer) :=
  .event .contentRendered :: (List.replicate 12 [.pumped, .answer oneDriveAnswers]).flatten ++
    [.event (.click .deploy ⟨some 0, "", "secret", true, "erase"⟩)]

theorem erases_run_oneDrive :
    ∃ plan, .entered plan ∈ (Loop.run (Window.handler .plain ⟨"S1", "S1", none, none⟩ (.str "s"))
        oneDriveInputs .opened).shared.history ∧
      Erases .plain Char.isDigit String.toInt? (.ok [oneDrive]) plan := by
  have hgranted : ∀ i ∈ oneDriveInputs, i.Granted (Window.Event.Fills (Picked .plain .stable
      (.ok [oneDrive]))) (Answers .plain .stable Char.isDigit String.toInt? (.ok [oneDrive])) := by
    have hanswers : ∀ c, Answers .plain .stable Char.isDigit String.toInt? (.ok [oneDrive]) c
        (oneDriveAnswers c) := by
      intro c
      cases c with
      | resolveTargetDisk rule => rfl
      | _ => trivial
    intro i hi
    rcases List.mem_append.mp hi with hi | hi
    · rcases List.mem_cons.mp hi with rfl | hi
      · trivial
      · obtain ⟨round, hround, hi⟩ := List.mem_flatten.mp hi
        obtain rfl := List.eq_of_mem_replicate hround
        rcases List.mem_pair.mp hi with rfl | rfl
        · trivial
        · exact hanswers
    · obtain rfl := List.mem_singleton.mp hi
      rintro n ⟨⟩
      exact ⟨_, getDeployDisksOf_oneDrive, _, List.mem_singleton_self _, rfl⟩
  have hentered : ∃ plan, .entered plan ∈ (Loop.run
      (Window.handler .plain ⟨"S1", "S1", none, none⟩ (.str "s")) oneDriveInputs
      .opened).shared.history := ⟨_, List.mem_of_getLast? rfl⟩
  obtain ⟨plan, hplan⟩ := hentered
  have hrun := (erases_run .plain .stable Char.isDigit String.toInt? (.ok [oneDrive])).1
    ⟨"S1", "S1", none, none⟩ (.str "s") oneDriveInputs hgranted
  exact ⟨plan, hplan, hrun plan hplan⟩

end WinDep.Deploy
