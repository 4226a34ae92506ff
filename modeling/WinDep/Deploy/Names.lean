/-
# Computer names

A name template is expanded to a name that Windows takes. The name that a policy
or an operator gives is used as it is, and the unattend block of a policy can
give another one to the answer file. A hashtable ignores the case of a key but
keeps its spelling, and the answer file takes the name only under the key as the
template spells it.
-/

import WinDep.Deploy.Window

namespace WinDep.Deploy

open Json Program

/-! ## Names that Windows takes -/

/-- A letter, a digit or a hyphen. -/
def isNameChar (c : Char) : Bool := c.isAlphanum || c == '-'

/-- The text is a computer name. -/
structure ValidName (s : String) : Prop where
  nonempty : s ≠ ""
  short : s.length ≤ 15
  plain : s.toList.all isNameChar = true

/-- The value for a token of the answer file: that of the key spelled like it. -/
def tokenValue (name : String) (values : Members) : Option Json := values.lookup name

/-- The plan has a valid name, and an answer file is given the same. -/
structure Named (plan : Plan) : Prop where
  valid : ∃ name, plan.computerName = .str name ∧ ValidName name
  consistent : plan.unattendTemplate ≠ none →
    tokenValue "COMPUTERNAME" plan.unattendValues = some plan.computerName

/-- The value of a key of a hashtable. -/
def tableGet (ps : PowerShell) (key : String) (table : Members) : Option Json :=
  (table.find? fun e => ps.eq e.1 key).map Prod.snd

/-- The key as a hashtable spells it. -/
def spelling (ps : PowerShell) (key : String) (table : Members) : Option String :=
  (table.find? fun e => ps.eq e.1 key).map Prod.fst

/-- No two keys are the same to the hashtable. -/
def DistinctKeys (ps : PowerShell) (table : Members) : Prop :=
  table.Pairwise fun e e' => ps.eq e.1 e'.1 = false

/-! ## Tables -/

/-- Comparing strings is an equivalence, and no culture takes the two keys for one. -/
structure PowerShell.ComparesStrings (ps : PowerShell) : Prop where
  refl : ∀ s, ps.eq s s = true
  symm : ∀ {s t}, ps.eq s t = true → ps.eq t s = true
  trans : ∀ {s t u}, ps.eq s t = true → ps.eq t u = true → ps.eq s u = true
  apart : ps.eq "SERIAL" "COMPUTERNAME" = false

theorem comparesStrings_plain : PowerShell.plain.ComparesStrings where
  refl _ := beq_self_eq_true _
  symm h := beq_iff_eq.mpr (beq_iff_eq.mp h).symm
  trans h h' := beq_iff_eq.mpr ((beq_iff_eq.mp h).trans (beq_iff_eq.mp h'))
  apart := by decide

section

variable {ps : PowerShell} {key k : String} {v : Json} {entries table : Members}

/-- A key that is assigned has its new value, and the others keep theirs. -/
theorem tableGet_setKey (hps : ps.ComparesStrings) :
    tableGet ps key (setKey ps k v table) =
      if ps.eq k key then some v else tableGet ps key table := by
  induction table with
  | nil => simp only [setKey, tableGet, List.find?_cons, List.find?_nil]; split <;> simp_all
  | cons e table ih =>
    obtain ⟨k₀, v₀⟩ := e
    rw [setKey]
    by_cases hset : ps.eq k₀ k = true
    · -- the entry that is replaced has the same names as the key that is assigned
      have hsame : ps.eq k₀ key = ps.eq k key :=
        Bool.eq_iff_iff.mpr ⟨hps.trans (hps.symm hset), hps.trans hset⟩
      rw [if_pos hset]
      simp only [tableGet, List.find?_cons, hsame]
      split <;> simp_all
    · rw [if_neg hset]
      by_cases hkey : ps.eq k₀ key = true
      · have hk : ¬ ps.eq k key = true := fun h => hset (hps.trans hkey (hps.symm h))
        simp [tableGet, hkey, hk]
      · simpa [tableGet, List.find?_cons, hkey] using ih

/-- The last of the entries for a key counts. -/
theorem tableGet_setKeys (hps : ps.ComparesStrings) :
    tableGet ps key (setKeys ps entries table) =
      (tableGet ps key entries.reverse).or (tableGet ps key table) := by
  induction entries generalizing table with
  | nil => rfl
  | cons e entries ih =>
    change tableGet ps key (setKeys ps entries (setKey ps e.1 e.2 table)) = _
    rw [ih, tableGet_setKey hps]
    simp only [tableGet, List.reverse_cons, List.find?_append]
    cases entries.reverse.find? fun e => ps.eq e.1 key with
    | some m => simp
    | none => cases h : ps.eq e.1 key <;> simp [h]

/-- A key that is there keeps its spelling. -/
theorem spelling_setKey (hps : ps.ComparesStrings) :
    spelling ps key (setKey ps k v table) =
      (spelling ps key table).or (if ps.eq k key then some k else none) := by
  induction table with
  | nil =>
    simp only [setKey, spelling, List.find?_cons, List.find?_nil]
    split <;> simp_all
  | cons e table ih =>
    obtain ⟨k₀, v₀⟩ := e
    rw [setKey]
    by_cases hset : ps.eq k₀ k = true
    · have hsame : ps.eq k₀ key = ps.eq k key :=
        Bool.eq_iff_iff.mpr ⟨hps.trans (hps.symm hset), hps.trans hset⟩
      rw [if_pos hset]
      simp only [spelling, List.find?_cons, hsame]
      split <;> simp_all
    · rw [if_neg hset]
      by_cases hkey : ps.eq k₀ key = true
      · simp [spelling, hkey]
      · simpa [spelling, List.find?_cons, hkey] using ih

/-- The first of the entries for a key that is not there gives its spelling. -/
theorem spelling_setKeys (hps : ps.ComparesStrings) :
    spelling ps key (setKeys ps entries table) =
      (spelling ps key table).or (spelling ps key entries) := by
  induction entries generalizing table with
  | nil => exact (Option.or_none).symm
  | cons e entries ih =>
    change spelling ps key (setKeys ps entries (setKey ps e.1 e.2 table)) = _
    rw [ih, spelling_setKey hps, Option.or_assoc]
    simp only [spelling, List.find?_cons]
    cases ps.eq e.1 key <;> rfl

/-- The keys of a table stay what they are, but for a new one. -/
theorem mem_setKey {e : String × Json} (h : e ∈ setKey ps k v table) :
    e.1 = k ∨ ∃ e' ∈ table, e'.1 = e.1 := by
  induction table with
  | nil => exact .inl (by rw [List.mem_singleton.mp h])
  | cons e₀ table ih =>
    rw [setKey] at h
    split_ifs at h
    · rcases List.mem_cons.mp h with rfl | h
      · exact .inr ⟨e₀, List.mem_cons_self, rfl⟩
      · exact .inr ⟨e, List.mem_cons_of_mem _ h, rfl⟩
    · rcases List.mem_cons.mp h with rfl | h
      · exact .inr ⟨_, List.mem_cons_self, rfl⟩
      · exact (ih h).imp_right fun ⟨e', he', hsame⟩ => ⟨e', List.mem_cons_of_mem _ he', hsame⟩

theorem distinctKeys_setKey (h : DistinctKeys ps table) :
    DistinctKeys ps (setKey ps k v table) := by
  induction table with
  | nil => exact List.pairwise_singleton _ _
  | cons e table ih =>
    obtain ⟨hhead, htail⟩ := List.pairwise_cons.mp h
    rw [setKey]
    split_ifs with hset
    · exact List.pairwise_cons.mpr ⟨hhead, htail⟩
    · refine List.pairwise_cons.mpr ⟨fun e' he' => ?_, ih htail⟩
      rcases mem_setKey he' with hkey | ⟨e₀, he₀, hkey⟩
      · rw [hkey]
        exact Bool.not_eq_true _ ▸ hset
      · exact hkey ▸ hhead e₀ he₀

theorem distinctKeys_setKeys (h : DistinctKeys ps table) :
    DistinctKeys ps (setKeys ps entries table) := by
  induction entries generalizing table with
  | nil => exact h
  | cons e entries ih => exact ih (distinctKeys_setKey h)

/-- The answer file takes the value of a key that is spelled like the token, and no other. -/
theorem tokenValue_eq_some_iff (hps : ps.ComparesStrings) (h : DistinctKeys ps table) :
    tokenValue key table = some v ↔
      spelling ps key table = some key ∧ tableGet ps key table = some v := by
  induction table with
  | nil => simp [tokenValue, spelling]
  | cons e table ih =>
    obtain ⟨k₀, v₀⟩ := e
    obtain ⟨hhead, htail⟩ := List.pairwise_cons.mp h
    by_cases hkey : ps.eq k₀ key = true
    · simp only [tokenValue, spelling, tableGet, List.lookup_cons, List.find?_cons, hkey]
      by_cases hspelled : k₀ = key
      · simp [hspelled]
      · -- no later key is the same to the hashtable, so none is spelled like the token
        have hnone : table.lookup key = none := List.lookup_eq_none_iff.mpr fun e he =>
          bne_iff_ne.mpr fun hsame => by
            have := hhead e he
            rw [← hsame, hkey] at this
            cases this
        simp [hspelled, beq_false_of_ne (Ne.symm hspelled), hnone]
    · have hne : key ≠ k₀ := fun hsame => hkey (hsame ▸ hps.refl _)
      simpa [tokenValue, spelling, tableGet, List.lookup_cons, beq_false_of_ne hne, hkey]
        using ih htail

end

/-! ## What a plan is made of -/

/-- The zero-touch plan of a config. -/
def zeroTouchPlan (disk : ℤ) (cfg : ZtpConfig) : Plan :=
  ⟨disk, cfg.computerName, cfg.imageUrl, some "unattend.template.xml", cfg.unattend⟩

/-- What a zero-touch plan is made of: what the servers and the settings gave, the decision of the
policy, and the disk. -/
structure ZeroTouchInput where
  settings : Json
  server : Json
  apiUrl : String
  identity : Identity
  document : Json
  found : Bool
  source : String
  decision : PolicyDecision
  disk : ℤ

/-- What a plan is made of. A zero-touch plan without a policy's config is one with a null. -/
inductive PlanInput
  | zeroTouch (i : ZeroTouchInput)
  | interactive (identity : Identity) (form : Window.Form)

namespace ZeroTouchInput

variable (ps : PowerShell) (i : ZeroTouchInput)

def config : Except Raised ZtpConfig := do
  let cfg ← normalizeConfig ps i.settings i.server i.apiUrl i.identity i.document i.found i.source
  overlay ps i.decision cfg

/-- The name template. -/
def template : Except Raised Json := do
  let sd ← ps.read i.settings "defaults"
  configField ps i.document sd "computerName" (.str "WKS-\x7bSERIAL\x7d")

/-- A property of the policy's config, if it counts as true. -/
def policyValue (name : String) : Option Json :=
  if truthy i.decision.config then (given ps i.decision.config name).toOption.join else none

/-- The unattend block of the policy's config. -/
def policyBlock : Members := ((i.policyValue ps "unattend").map ps.properties).getD []

/-- The unattend block of the config that the server gave. -/
def documentBlock : Members :=
  if truthy i.document then
    ((given ps i.document "unattend").toOption.join.map ps.properties).getD []
  else []

/-- The characters of the expanded template that the pattern keeps. -/
def kept (template : String) : List Char :=
  (replaceAll "\x7bSERIAL\x7d".toList i.identity.sanitizedSerial.toList 0 template.toList).filter
    (nameChar ps)

/-- The name is the policy's, if it gives one; else the template has a character that the pattern
keeps, and the first 15 of these are the name. -/
def GivesName (name : String) : Prop :=
  match i.policyValue ps "computerName" with
  | some v => v = .str name ∧ ValidName name
  | none => ∃ template text, i.template ps = .ok template ∧
      ps.bindString "Template" template = .ok text ∧ i.kept ps text ≠ [] ∧
      ((i.kept ps text).take 15).all isNameChar = true ∧
      name = String.ofList ((i.kept ps text).take 15)

/-- There is a valid name, the policy's unattend block has no other, and the server's unattend
block spells the key, where it has it, like the token. -/
def NamesWell : Prop :=
  (∃ name, i.GivesName ps name ∧
    ∀ v, tableGet ps "COMPUTERNAME" (i.policyBlock ps).reverse = some v → v = .str name) ∧
    ∀ k, spelling ps "COMPUTERNAME" (i.documentBlock ps) = some k → k = "COMPUTERNAME"

end ZeroTouchInput

/-- The operator enters a valid name; or none, and the serial is one to put after `WKS-`. -/
def EntersName (identity : Identity) (form : Window.Form) : Prop :=
  if Window.trimString form.name = "" then
    identity.sanitizedSerial.length ≤ 11 ∧
      identity.sanitizedSerial.toList.all isNameChar = true
  else ValidName (Window.trimString form.name)

namespace PlanInput

variable (ps : PowerShell)

/-- The plan that is passed on. -/
def plan : PlanInput → Except Raised Plan
  | zeroTouch i => do return zeroTouchPlan i.disk (← i.config ps)
  | interactive identity form => Window.newInteractivePlan identity form

def NamesWell : PlanInput → Prop
  | zeroTouch i => i.NamesWell ps
  | interactive identity form => EntersName identity form

end PlanInput

/-! ## The name of a plan -/

theorem validName_ofList {cs : List Char} :
    ValidName (String.ofList (cs.take 15)) ↔ cs ≠ [] ∧ (cs.take 15).all isNameChar = true := by
  have hlength : (String.ofList (cs.take 15)).length ≤ 15 := by
    rw [String.length_ofList, List.length_take]
    exact Nat.min_le_left _ _
  have hempty : String.ofList (cs.take 15) = "" ↔ cs = [] := by
    rw [← String.toList_eq_nil_iff, String.toList_ofList]
    simp
  constructor
  · rintro ⟨hne, -, hall⟩
    rw [String.toList_ofList] at hall
    exact ⟨fun h => hne (hempty.mpr h), hall⟩
  · rintro ⟨hne, hall⟩
    exact ⟨fun h => hne (hempty.mp h), hlength, by rwa [String.toList_ofList]⟩

section

variable {ps : PowerShell} {i : ZeroTouchInput} {cfg : ZtpConfig} {template : Json} {plan : Plan}

/-- An expanded template is null, or the first characters that the pattern keeps. -/
theorem expandNameTemplate_ok {v : Json}
    (h : expandNameTemplate ps template i.identity = .ok v) :
    ∃ text, ps.bindString "Template" template = .ok text ∧
      ((i.kept ps text = [] ∧ v = .null) ∨
        v = .str (String.ofList ((i.kept ps text).take 15))) := by
  rw [expandNameTemplate, bind_eq_ok] at h
  obtain ⟨text, htext, h⟩ := h
  refine ⟨text, htext, ?_⟩
  split_ifs at h with hempty
  · cases h
    subst hempty
    exact .inl ⟨rfl, rfl⟩
  · cases h
    exact .inr rfl

theorem unattendOf_eq (document : Json) :
    unattendOf ps document = if truthy document then do
      return setKeys ps (((← given ps document "unattend").map ps.properties).getD []) []
    else return [] := by
  unfold unattendOf given
  split_ifs
  · cases ps.hasProperty document "unattend" with
    | error e => rfl
    | ok has =>
      cases has with
      | false => rfl
      | true =>
        cases ps.read document "unattend" with
        | error e => rfl
        | ok v =>
          by_cases h : truthy v = true
          · simp [h]
          · simp [h]
            rfl
  · rfl

theorem unattendOf_ok {u : Members} (h : unattendOf ps i.document = .ok u) :
    u = setKeys ps (i.documentBlock ps) [] := by
  rw [unattendOf_eq] at h
  unfold ZeroTouchInput.documentBlock
  split_ifs at h ⊢
  · obtain ⟨block, hblock, h⟩ := bind_eq_ok.mp h
    cases h
    rw [hblock]
    rfl
  · cases h
    rfl

/-- The table of a config has the spelling of the server's unattend block. -/
theorem normalizeConfig_table (hps : ps.ComparesStrings) (h : normalizeConfig ps i.settings i.server
    i.apiUrl i.identity i.document i.found i.source = .ok cfg) :
    DistinctKeys ps cfg.unattend ∧ spelling ps "COMPUTERNAME" cfg.unattend =
      some ((spelling ps "COMPUTERNAME" (i.documentBlock ps)).getD "COMPUTERNAME") := by
  simp only [normalizeConfig, bind_eq_ok] at h
  obtain ⟨sd, -, u, hu, template, -, n, -, mode, -, disk, -, image, -, wipe, -, hc⟩ := h
  cases hc
  have hdistinct : DistinctKeys ps (setKey ps "COMPUTERNAME" n u) := by
    rw [unattendOf_ok hu]
    exact distinctKeys_setKey (distinctKeys_setKeys List.Pairwise.nil)
  have hspelling : spelling ps "COMPUTERNAME" (setKey ps "COMPUTERNAME" n u) =
      some ((spelling ps "COMPUTERNAME" (i.documentBlock ps)).getD "COMPUTERNAME") := by
    rw [spelling_setKey hps, if_pos (hps.refl _), unattendOf_ok hu, spelling_setKeys hps]
    cases spelling ps "COMPUTERNAME" (i.documentBlock ps) <;> rfl
  split_ifs
  · exact ⟨hdistinct, hspelling⟩
  · refine ⟨distinctKeys_setKey hdistinct, ?_⟩
    rw [spelling_setKey hps, hspelling, Option.some_or]

/-- The policy's config comes later and does not change a spelling. -/
theorem config_table (hps : ps.ComparesStrings) (h : i.config ps = .ok cfg) :
    DistinctKeys ps cfg.unattend ∧ spelling ps "COMPUTERNAME" cfg.unattend =
      some ((spelling ps "COMPUTERNAME" (i.documentBlock ps)).getD "COMPUTERNAME") := by
  rw [ZeroTouchInput.config, bind_eq_ok] at h
  obtain ⟨c, hc, h⟩ := h
  obtain ⟨hdistinct, hspelling⟩ := normalizeConfig_table hps hc
  unfold overlay at h
  split_ifs at h
  · simp only [mergePolicyConfig, bind_eq_ok] at h
    obtain ⟨mode, -, disk, -, name, -, image, -, u, -, hc'⟩ := h
    cases hc'
    refine ⟨distinctKeys_setKeys ?_, ?_⟩
    · cases name with
      | none => exact hdistinct
      | some v => exact distinctKeys_setKey hdistinct
    · rw [spelling_setKeys hps]
      cases name with
      | none => rw [hspelling, Option.some_or]
      | some v => rw [spelling_setKey hps, hspelling, Option.some_or, Option.some_or]
  · cases h
    exact ⟨hdistinct, hspelling⟩

/-- The name of a config, and the answer file's. -/
theorem normalizeConfig_names (hps : ps.ComparesStrings) (h : normalizeConfig ps i.settings i.server
    i.apiUrl i.identity i.document i.found i.source = .ok cfg) :
    (∃ template, i.template ps = .ok template ∧
      expandNameTemplate ps template i.identity = .ok cfg.computerName) ∧
      tableGet ps "COMPUTERNAME" cfg.unattend = some cfg.computerName := by
  simp only [normalizeConfig, bind_eq_ok] at h
  obtain ⟨sd, hsd, u, -, template, htemplate, n, hn, mode, -, disk, -, image, -, wipe, -, hc⟩ := h
  cases hc
  refine ⟨⟨template, ?_, hn⟩, ?_⟩
  · rw [ZeroTouchInput.template, hsd]
    exact htemplate
  · -- the serial that fills a gap is under another key
    have hname : tableGet ps "COMPUTERNAME" (setKey ps "COMPUTERNAME" n u) = some n := by
      rw [tableGet_setKey hps, if_pos (hps.refl _)]
    split_ifs
    · exact hname
    · rw [tableGet_setKey hps, hps.apart]
      exact hname

/-- The name that the policy gives replaces both, and its unattend block may replace the second. -/
theorem config_names (hps : ps.ComparesStrings) (h : i.config ps = .ok cfg) :
    ∃ template expanded, i.template ps = .ok template ∧
      expandNameTemplate ps template i.identity = .ok expanded ∧
      cfg.computerName = (i.policyValue ps "computerName").getD expanded ∧
      tableGet ps "COMPUTERNAME" cfg.unattend =
        some ((tableGet ps "COMPUTERNAME" (i.policyBlock ps).reverse).getD cfg.computerName) := by
  rw [ZeroTouchInput.config, bind_eq_ok] at h
  obtain ⟨c, hc, h⟩ := h
  obtain ⟨⟨template, htemplate, hexpanded⟩, hunattend⟩ := normalizeConfig_names hps hc
  refine ⟨template, c.computerName, htemplate, hexpanded, ?_⟩
  -- the policy may not give a config at all
  unfold overlay at h
  split_ifs at h with htruthy
  · simp only [mergePolicyConfig, bind_eq_ok] at h
    obtain ⟨mode, -, disk, -, name, hname, image, -, u, hu, hc'⟩ := h
    cases hc'
    have hpolicy : i.policyValue ps "computerName" = name := by
      rw [ZeroTouchInput.policyValue, if_pos htruthy, hname]
      rfl
    have hblock : i.policyBlock ps = (u.map ps.properties).getD [] := by
      rw [ZeroTouchInput.policyBlock, ZeroTouchInput.policyValue, if_pos htruthy, hu]
      rfl
    refine ⟨by rw [hpolicy], ?_⟩
    -- the block of the policy is laid over the table last
    rw [tableGet_setKeys hps, hblock]
    cases name with
    | none =>
      rw [hunattend]
      cases tableGet ps "COMPUTERNAME" ((u.map ps.properties).getD []).reverse <;> rfl
    | some v =>
      rw [tableGet_setKey hps, if_pos (hps.refl _)]
      cases tableGet ps "COMPUTERNAME" ((u.map ps.properties).getD []).reverse <;> rfl
  · cases h
    have hnone (name : String) : i.policyValue ps name = none := if_neg htruthy
    rw [ZeroTouchInput.policyBlock, hnone, hnone]
    exact ⟨rfl, hunattend⟩

/-- A zero-touch plan is named well exactly if what it is made of names it well. -/
theorem named_zeroTouch_iff (hps : ps.ComparesStrings) (h : i.config ps = .ok cfg) :
    Named (zeroTouchPlan i.disk cfg) ↔ i.NamesWell ps := by
  obtain ⟨template, expanded, htemplate, hexpanded, hname, hunattend⟩ := config_names hps h
  obtain ⟨text, htext, hkept⟩ := expandNameTemplate_ok hexpanded
  -- what gives a name gives the name of the config
  have hgives (name : String) :
      i.GivesName ps name ↔ cfg.computerName = .str name ∧ ValidName name := by
    rw [hname]
    unfold ZeroTouchInput.GivesName
    cases i.policyValue ps "computerName" with
    | some v => rfl
    | none =>
      constructor
      · rintro ⟨template', text', htemplate', htext', hne, hall, rfl⟩
        rw [htemplate, Except.ok.injEq] at htemplate'
        subst htemplate'
        rw [htext, Except.ok.injEq] at htext'
        subst htext'
        rcases hkept with ⟨hnil, -⟩ | hexpanded
        · exact absurd hnil hne
        · exact ⟨hexpanded, validName_ofList.mpr ⟨hne, hall⟩⟩
      · rintro ⟨hexpanded', hvalid⟩
        rcases hkept with ⟨-, hnull⟩ | hexpanded
        · rw [Option.getD_none, hnull] at hexpanded'
          cases hexpanded'
        · rw [Option.getD_none, hexpanded, Json.str.injEq] at hexpanded'
          subst hexpanded'
          obtain ⟨hne, hall⟩ := validName_ofList.mp hvalid
          exact ⟨template, text, htemplate, htext, hne, hall, rfl⟩
  -- the answer file takes the value of the table if the key is spelled like the token
  have htoken : tokenValue "COMPUTERNAME" cfg.unattend = some cfg.computerName ↔
      (tableGet ps "COMPUTERNAME" (i.policyBlock ps).reverse).getD cfg.computerName =
        cfg.computerName ∧
      (spelling ps "COMPUTERNAME" (i.documentBlock ps)).getD "COMPUTERNAME" = "COMPUTERNAME" := by
    obtain ⟨hdistinct, hspelling⟩ := config_table hps h
    rw [tokenValue_eq_some_iff hps hdistinct, hspelling, hunattend, Option.some.injEq,
      Option.some.injEq, and_comm]
  constructor
  · rintro ⟨⟨name, hcomputer, hvalid⟩, hconsistent⟩
    obtain ⟨hvalue, hspelled⟩ := htoken.mp (hconsistent (by simp [zeroTouchPlan]))
    refine ⟨⟨name, (hgives name).mpr ⟨hcomputer, hvalid⟩, fun v hv => ?_⟩, fun k hk => ?_⟩
    · rw [hv, Option.getD_some] at hvalue
      exact hvalue.trans hcomputer
    · rwa [hk, Option.getD_some] at hspelled
  · rintro ⟨⟨name, hgiven, hblock⟩, hspelled⟩
    obtain ⟨hcomputer, hvalid⟩ := (hgives name).mp hgiven
    refine ⟨⟨name, hcomputer, hvalid⟩, fun _ => htoken.mpr ⟨?_, ?_⟩⟩
    · cases hv : tableGet ps "COMPUTERNAME" (i.policyBlock ps).reverse with
      | none => rfl
      | some v => rw [Option.getD_some, hblock v hv, hcomputer]
    · cases hk : spelling ps "COMPUTERNAME" (i.documentBlock ps) with
      | none => rfl
      | some k => exact hspelled k hk

theorem validName_fallback {serial : String} :
    ValidName ("WKS-" ++ serial) ↔ serial.length ≤ 11 ∧ serial.toList.all isNameChar = true := by
  have hlength : ("WKS-" ++ serial).length = serial.length + 4 := by
    rw [String.length_append, Nat.add_comm]
    rfl
  have hall : ("WKS-" ++ serial).toList.all isNameChar = serial.toList.all isNameChar := by
    rw [String.toList_append, List.all_append]
    rfl
  constructor
  · rintro ⟨-, hshort, hplain⟩
    exact ⟨by omega, hall ▸ hplain⟩
  · rintro ⟨hshort, hplain⟩
    refine ⟨fun hempty => ?_, by omega, hall.trans hplain⟩
    rw [hempty] at hlength
    exact absurd hlength (by simp)

/-- The name of an interactive plan is the text of the operator, or made of the serial. -/
theorem named_interactive_iff {identity : Identity} {form : Window.Form}
    (h : Window.newInteractivePlan identity form = .ok plan) :
    Named plan ↔ EntersName identity form := by
  obtain ⟨name, hname⟩ : ∃ name, name = if Window.trimString form.name = "" then
      "WKS-" ++ identity.sanitizedSerial else Window.trimString form.name := ⟨_, rfl⟩
  have henters : EntersName identity form ↔ ValidName name := by
    rw [EntersName, hname]
    split_ifs
    · exact validName_fallback.symm
    · rfl
  -- the answer file, if there is one, is given the name of the plan
  have hplan : plan.computerName = .str name ∧ (plan.unattendTemplate ≠ none →
      tokenValue "COMPUTERNAME" plan.unattendValues = some (.str name)) := by
    unfold Window.newInteractivePlan at h
    cases hdisk : form.disk with
    | none =>
      rw [hdisk] at h
      cases h
    | some disk =>
      simp only [hdisk, ← hname] at h
      split_ifs at h
      · cases h
        exact ⟨rfl, fun hnone => absurd rfl hnone⟩
      · cases h
        exact ⟨rfl, fun _ => rfl⟩
  rw [henters]
  constructor
  · rintro ⟨⟨name', hname', hvalid⟩, -⟩
    rw [hplan.1, Json.str.injEq] at hname'
    exact hname' ▸ hvalid
  · intro hvalid
    exact ⟨⟨name, hplan.1, hvalid⟩, fun hnone => by rw [hplan.2 hnone, hplan.1]⟩

end

/-! ## Two forms -/

/-- A form that is filled in with a name. -/
def namedForm (name : String) : Window.Form := ⟨some 0, name, "secret", true, "ERASE"⟩

end WinDep.Deploy
