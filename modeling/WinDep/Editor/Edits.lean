/-
# What is typed is what is served

An administrator types strings into the form and saves it. What the machine is
served then is, member by member, what was typed last, and what the default has
where nothing was typed. A password that is left blank stays as it was if the
form knows of one, through any number of saves, though no one ever sees it again.

The encrypted files refine the plaintext store, and the plaintext store refines a
sheet for each machine.
-/

import WinDep.Config.Plaintext
import WinDep.Editor.RoundTrip

namespace WinDep.Editor

open Json Object Admin

/-! ## The form as it is typed -/

/-- The form with strings in its fields. The two switches at the end say that the form was opened
on a config with a password. -/
structure Typed where
  computerName : String
  mode : String
  targetDisk : String
  imageUrl : String
  confirmWipe : Bool
  joinDomain : Bool
  TIMEZONE : String
  LOCALADMINUSER : String
  LOCALADMINPASS : String
  JOINDOMAIN : String
  DOMAINOU : String
  DOMAINUSER : String
  DOMAINPASS : String
  localAdminPassSet : Bool
  domainPassSet : Bool

namespace Typed

variable (t : Typed)

def fields (serial : String) : Fields where
  serial := serial
  computerName := .str t.computerName
  mode := .str t.mode
  targetDisk := .str t.targetDisk
  imageUrl := .str t.imageUrl
  confirmWipe := t.confirmWipe
  joinDomain := t.joinDomain
  TIMEZONE := .str t.TIMEZONE
  LOCALADMINUSER := .str t.LOCALADMINUSER
  LOCALADMINPASS := .str t.LOCALADMINPASS
  JOINDOMAIN := .str t.JOINDOMAIN
  DOMAINOU := .str t.DOMAINOU
  DOMAINUSER := .str t.DOMAINUSER
  DOMAINPASS := .str t.DOMAINPASS
  localAdminPassSet := t.localAdminPassSet
  domainPassSet := t.domainPassSet

/-- What is typed for the answer file, as it is sent. -/
def answers : List String :=
  [trimString t.TIMEZONE, trimString t.LOCALADMINUSER, t.LOCALADMINPASS, trimString t.JOINDOMAIN,
    trimString t.DOMAINOU, trimString t.DOMAINUSER, t.DOMAINPASS]

/-- Nothing typed for the answer file begins like an envelope. -/
def Plain : Prop := ∀ s ∈ t.answers, Envelope.isEncrypted (toBytes s) = false

end Typed

/-! ## The sheet of a machine -/

/-- What is set for a machine. What is not set is inherited. -/
@[ext]
structure Sheet where
  mode : Option String
  targetDisk : Option String
  computerName : Option String
  imageUrl : Option String
  confirmWipe : Option Bool
  TIMEZONE : Option String
  LOCALADMINUSER : Option String
  LOCALADMINPASS : Option String
  JOINDOMAIN : Option String
  DOMAINOU : Option String
  DOMAINUSER : Option String
  DOMAINPASS : Option String

namespace Sheet

def blank : Sheet :=
  ⟨none, none, none, none, none, none, none, none, none, none, none, none⟩

/-- A field that holds more than blanks sets its trimmed text. -/
def text (s : String) : Option String := if trimString s = "" then none else some (trimString s)

/-- A typed password is set as it is. The sentinel, or a blank field of a password that is known,
leaves what was set. -/
def password (typed : String) (known : Bool) (prev : Option String) : Option String :=
  if typed = "" then if known then prev else none
  else if typed = KEEP then prev else some typed

/-- The sheet after the form is saved over it. -/
def save (prev : Sheet) (t : Typed) : Sheet where
  mode := if t.mode = "" then none else some t.mode
  targetDisk := text t.targetDisk
  computerName := text t.computerName
  imageUrl := text t.imageUrl
  confirmWipe := some t.confirmWipe
  TIMEZONE := text t.TIMEZONE
  LOCALADMINUSER := text t.LOCALADMINUSER
  LOCALADMINPASS := password t.LOCALADMINPASS t.localAdminPassSet prev.LOCALADMINPASS
  JOINDOMAIN := if t.joinDomain then text t.JOINDOMAIN else none
  DOMAINOU := if t.joinDomain then text t.DOMAINOU else none
  DOMAINUSER := if t.joinDomain then text t.DOMAINUSER else none
  DOMAINPASS :=
    if t.joinDomain then password t.DOMAINPASS t.domainPassSet prev.DOMAINPASS else none

/-- What the sheet sets in the config, by the name of the member. -/
def setting (s : Sheet) (k : String) : Option Json :=
  if k = "mode" then s.mode.map .str
  else if k = "targetDisk" then s.targetDisk.map .str
  else if k = "computerName" then s.computerName.map .str
  else if k = "imageUrl" then s.imageUrl.map .str
  else if k = "confirmWipe" then s.confirmWipe.map .bool
  else none

/-- What the sheet sets in the unattend block. -/
def answer (s : Sheet) (k : String) : Option Json :=
  if k = "TIMEZONE" then s.TIMEZONE.map .str
  else if k = "LOCALADMINUSER" then s.LOCALADMINUSER.map .str
  else if k = "LOCALADMINPASS" then s.LOCALADMINPASS.map .str
  else if k = "JOINDOMAIN" then s.JOINDOMAIN.map .str
  else if k = "DOMAINOU" then s.DOMAINOU.map .str
  else if k = "DOMAINUSER" then s.DOMAINUSER.map .str
  else if k = "DOMAINPASS" then s.DOMAINPASS.map .str
  else none

end Sheet

/-! ## What is sent -/

/-- The entries of the unattend block of a form. -/
def Typed.sentAnswers (t : Typed) : List (String × Option Json) :=
  [("TIMEZONE", (Sheet.text t.TIMEZONE).map .str),
    ("LOCALADMINUSER", (Sheet.text t.LOCALADMINUSER).map .str),
    ("LOCALADMINPASS", secretOut (.str t.LOCALADMINPASS) t.localAdminPassSet)] ++
  if t.joinDomain then
    [("JOINDOMAIN", (Sheet.text t.JOINDOMAIN).map .str),
      ("DOMAINOU", (Sheet.text t.DOMAINOU).map .str),
      ("DOMAINUSER", (Sheet.text t.DOMAINUSER).map .str),
      ("DOMAINPASS", secretOut (.str t.DOMAINPASS) t.domainPassSet)]
  else []

/-- The entries of the config of a form. -/
def Typed.sentSettings (t : Typed) : List (String × Option Json) :=
  [("mode", if truthy (.str t.mode) then some (.str t.mode) else none),
    ("targetDisk", (Sheet.text t.targetDisk).map .str),
    ("computerName", (Sheet.text t.computerName).map .str),
    ("imageUrl", (Sheet.text t.imageUrl).map .str),
    ("confirmWipe", some (.bool t.confirmWipe)),
    ("unattend", if (sparse t.sentAnswers).length ≠ 0 then some (.obj (sparse t.sentAnswers))
      else none)]

variable {t : Typed} {k : String} {v w : Json}

theorem plainOut_str (s : String) : plainOut (.str s) = some ((Sheet.text s).map .str) := by
  rw [plainOut, trim, Option.map_some, Sheet.text]
  by_cases hblank : trimString s = ""
  · simp [hblank]
  · simp [hblank]

theorem buildUnattend_fields (t : Typed) (serial : String) :
    buildUnattend (t.fields serial) = some (sparse t.sentAnswers) := by
  simp only [buildUnattend, unattendEntries, Typed.fields, plainOut_str, Option.bind_eq_bind,
    Option.bind_some, Typed.sentAnswers]
  split_ifs <;> rfl

/-- A form of strings always gives a config. -/
theorem toConfig_fields (t : Typed) (serial : String) :
    toConfig (t.fields serial) = some (.obj (sparse t.sentSettings)) := by
  rw [toConfig, buildUnattend_fields]
  simp only [Typed.fields, plainOut_str, Option.bind_eq_bind, Option.bind_some]
  rfl

/-- The config a form is decoded to at the server. -/
def Typed.config (t : Typed) : Object := ofMembers (sparse t.sentSettings)

theorem nodup_sentSettings (t : Typed) : (t.sentSettings.map Prod.fst).Nodup := by
  simp [Typed.sentSettings]

theorem nodup_sentAnswers (t : Typed) : (t.sentAnswers.map Prod.fst).Nodup := by
  unfold Typed.sentAnswers
  split_ifs <;> simp

theorem lookup_config_unattend (t : Typed) :
    t.config.lookup "unattend" =
      if (sparse t.sentAnswers).length ≠ 0 then
        some (ofMembers (sparse t.sentAnswers)).toJson else none := by
  rw [Typed.config, lookup_ofMembers_sparse (nodup_sentSettings t)]
  simp only [Typed.sentSettings, List.lookup_cons]
  split_ifs <;> simp [toJson, ofMembers, Json.normalize]

theorem block_config (t : Typed) : blockOf t.config = ofMembers (sparse t.sentAnswers) := by
  have hlookup := lookup_config_unattend t
  rw [blockOf]
  by_cases hlen : (sparse t.sentAnswers).length ≠ 0
  · rw [if_pos hlen] at hlookup
    have hun : Config.unattend (some t.config) = some (ofMembers (sparse t.sentAnswers)) :=
      object?_eq_some.mpr hlookup
    rw [hun, Option.getD_some]
  · -- an empty block is not sent
    rw [if_neg hlen] at hlookup
    have hun : Config.unattend (some t.config) = none := by
      rw [Config.unattend, object?_eq_none]
      intro b hb
      change t.config.lookup "unattend" = _ at hb
      simp [hlookup] at hb
    rw [hun, List.length_eq_zero_iff.mp (not_not.mp hlen)]
    rfl

/-- A setting that is sent is what the sheet sets. -/
theorem lookup_config (hk : k ≠ "unattend") (prev : Sheet) :
    t.config.lookup k = (prev.save t).setting k := by
  have hmode : (if truthy (.str t.mode) then some (Json.str t.mode) else none) =
      (prev.save t).mode.map .str := by
    by_cases hm : t.mode = "" <;> simp [truthy, Sheet.save, hm]
  have hnormalize (o : Option String) : (o.map Json.str).map Json.normalize = o.map Json.str := by
    cases o <;> simp [Json.normalize]
  rw [Typed.config, lookup_ofMembers_sparse (nodup_sentSettings t), Typed.sentSettings, hmode]
  simp only [KeyedList.lookup_cons_ite, List.lookup_nil, Sheet.setting]
  split_ifs with h1 h2 h3 h4 h5 <;>
    simp only [Option.join_some, Option.join_none, Option.map_none, hnormalize] <;> rfl

/-! ## What the plaintext store keeps -/

variable {prev : Object} {s : String} {known : Bool} {o : Option String}

theorem putMember_of_not_secret (hk : isSecretField k = false) :
    PlainStore.putMember prev k v = some v := by
  simp [PlainStore.putMember, hk]

/-- A password over what the block had. -/
theorem putMember_password (hk : isSecretField k = true) (hprev : prev.lookup k = o.map .str) :
    ((secretOut (.str s) known).map Json.normalize).bind (PlainStore.putMember prev k) =
      (Sheet.password s known o).map .str := by
  have hkeep : PlainStore.putMember prev k (.str KEEP) = o.map .str := by
    rw [PlainStore.putMember, if_pos hk, if_neg (by decide),
      if_pos (show KEEP = keepSentinel from rfl), hprev]
  unfold secretOut Sheet.password
  by_cases hs : s = ""
  · -- a blank field sends the sentinel if a password is known
    subst hs
    cases known with
    | false => rfl
    | true => simpa [truthy, Json.normalize] using hkeep
  · rw [if_pos (by simpa [truthy] using hs), if_neg hs, Option.map_some, Json.normalize,
      Option.bind_some]
    · by_cases hs' : s = KEEP
      · rw [if_pos hs', hs', hkeep]
      · rw [if_neg hs', PlainStore.putMember, if_pos hk, if_neg hs,
          if_neg (show ¬ s = keepSentinel from hs')]
        rfl
    all_goals intros; contradiction

/-- The block of a form, put over a block that shows a sheet, shows the sheet with the form
saved. -/
theorem lookup_putUnattend (sheet : Sheet) (hprev : ∀ k, prev.lookup k = sheet.answer k) :
    (PlainStore.putUnattend prev (blockOf t.config)).lookup k = (sheet.save t).answer k := by
  have hnormalize (o : Option String) : (o.map Json.str).map Json.normalize = o.map Json.str := by
    cases o <;> simp [Json.normalize]
  have hplain (name : String) (hk : isSecretField name = false) (o : Option String) :
      (o.map Json.str).bind (PlainStore.putMember prev name) = o.map .str := by
    rw [show PlainStore.putMember prev name = some from
      funext fun v => putMember_of_not_secret hk, Option.bind_fun_some]
  have hlocal := @putMember_password "LOCALADMINPASS" prev t.LOCALADMINPASS t.localAdminPassSet
    sheet.LOCALADMINPASS (by decide) (hprev "LOCALADMINPASS")
  have hdomain := @putMember_password "DOMAINPASS" prev t.DOMAINPASS t.domainPassSet
    sheet.DOMAINPASS (by decide) (hprev "DOMAINPASS")
  rw [PlainStore.putUnattend, lookup_mapMaybe, block_config,
    lookup_ofMembers_sparse (nodup_sentAnswers t), Typed.sentAnswers, Sheet.answer]
  -- the answers about the domain are only sent when it is to be joined
  cases hjoin : t.joinDomain with
  | true =>
    simp only [if_true, List.cons_append, List.nil_append, KeyedList.lookup_cons_ite,
      List.lookup_nil, Sheet.save, hjoin]
    split_ifs with h1 h2 h3 h4 h5 h6 h7
    all_goals simp only [Option.join_some, Option.join_none, Option.map_none, Option.bind_none]
    all_goals try subst k
    · rw [hnormalize, hplain _ (by decide)]
    · rw [hnormalize, hplain _ (by decide)]
    · exact hlocal
    · rw [hnormalize, hplain _ (by decide)]
    · rw [hnormalize, hplain _ (by decide)]
    · rw [hnormalize, hplain _ (by decide)]
    · exact hdomain
  | false =>
    simp only [Bool.false_eq_true, if_false, List.append_nil, KeyedList.lookup_cons_ite,
      List.lookup_nil, Sheet.save, hjoin]
    split_ifs with h1 h2 h3 h4 h5 h6 h7
    all_goals simp only [Option.join_some, Option.join_none, Option.map_none, Option.bind_none]
    all_goals try subst k
    · rw [hnormalize, hplain _ (by decide)]
    · rw [hnormalize, hplain _ (by decide)]
    · exact hlocal

/-! ## The body of a form -/

/-- A string that does not begin like an envelope. -/
def PlainString (w : Json) : Prop := ∃ s, w = .str s ∧ Envelope.isEncrypted (toBytes s) = false

theorem plainString_text (h : t.Plain) (hs : trimString s ∈ t.answers)
    (hw : (Sheet.text s).map .str = some w) : PlainString w := by
  unfold Sheet.text at hw
  split_ifs at hw
  · cases hw
  · exact ⟨_, (Option.some.inj hw).symm, h _ hs⟩

theorem plainString_secretOut (h : t.Plain) (hs : s ∈ t.answers)
    (hw : secretOut (.str s) known = some w) : PlainString w := by
  unfold secretOut at hw
  split_ifs at hw
  · exact ⟨_, (Option.some.inj hw).symm, h _ hs⟩
  · exact ⟨_, (Option.some.inj hw).symm, by decide⟩

theorem plainString_sentAnswers (h : t.Plain) {e : String × Option Json}
    (he : e ∈ t.sentAnswers) (hw : e.2 = some w) : PlainString w := by
  unfold Typed.sentAnswers at he
  rcases List.mem_append.mp he with he | he
  · simp only [List.mem_cons, List.not_mem_nil, or_false] at he
    rcases he with rfl | rfl | rfl
    · exact plainString_text h (by simp [Typed.answers]) hw
    · exact plainString_text h (by simp [Typed.answers]) hw
    · exact plainString_secretOut h (by simp [Typed.answers]) hw
  · split_ifs at he
    · simp only [List.mem_cons, List.not_mem_nil, or_false] at he
      rcases he with rfl | rfl | rfl | rfl
      · exact plainString_text h (by simp [Typed.answers]) hw
      · exact plainString_text h (by simp [Typed.answers]) hw
      · exact plainString_text h (by simp [Typed.answers]) hw
      · exact plainString_secretOut h (by simp [Typed.answers]) hw
    · cases he

/-- A form that begins no text like an envelope gives a plain body. -/
theorem plainBody_config (h : t.Plain) : PlainBody (some t.config) := by
  refine ⟨rfl, fun v hv => ⟨ofMembers (sparse t.sentAnswers), ?_, fun k w hw => ?_⟩⟩
  · change t.config.lookup "unattend" = _ at hv
    rw [lookup_config_unattend] at hv
    split_ifs at hv
    exact (Option.some.inj hv).symm
  · rw [lookup_ofMembers_sparse (nodup_sentAnswers t), Option.map_eq_some_iff] at hw
    obtain ⟨w', hw', rfl⟩ := hw
    have hmem := KeyedList.mem_of_lookup_eq_some (Option.join_eq_some_iff.mp hw')
    obtain ⟨s, rfl, hs⟩ := plainString_sentAnswers h hmem rfl
    exact ⟨s, by simp [Json.normalize], hs⟩

/-! ## Edits -/

/-- A request to put a config: a form is saved for a machine, or the default is replaced. -/
inductive Edit
  | save (serial : Serial) (t : Typed) (ivs : String → IV) (faults : Faults)
  | putDefault (body : Stream) (ivs : String → IV) (faults : Faults)

/-- The text of a form that is saved. -/
def Typed.body (t : Typed) (serial : String) : Bytes :=
  stringify ((toConfig (t.fields serial)).getD .null)

namespace Edit

def put : Edit → ConfigPut
  | save serial t ivs faults => ⟨.machine serial, .ofBytes (t.body serial.1), ivs, faults⟩
  | putDefault body ivs faults => ⟨.defaultJson, body, ivs, faults⟩

/-- The form fits into what the server reads and has no text that begins like an envelope; the
default is put as a plain body. -/
def Plain : Edit → Prop
  | save serial t _ _ => t.Plain ∧ (t.body serial.1).length ≤ maxBody
  | e@(putDefault _ _ _) => ∀ cfg, e.put.config = some cfg → PlainBody cfg

/-- The sheets after an accepted edit. -/
def apply (sheets : Serial → Option Sheet) : Edit → Serial → Option Sheet
  | save serial t _ _ =>
    Function.update sheets serial (some (((sheets serial).getD Sheet.blank).save t))
  | putDefault _ _ _ => sheets

end Edit

/-- The sheets after the accepted edits of a run. -/
def sheetsAfter (P : Primitives) (masterKey : Option Key) (sha256 : Bytes → Digest) :
    List Edit → Disk → (Serial → Option Sheet) → Serial → Option Sheet
  | [], _, sheets => sheets
  | e :: es, d, sheets =>
    sheetsAfter P masterKey sha256 es (e.put.handle P masterKey sha256 d).2
      (if (e.put.handle P masterKey sha256 d).1.status = 201 then e.apply sheets else sheets)

theorem within_text {d : ℕ} (h : (Sheet.text s).map .str = some v) : Within d v := by
  obtain ⟨s, -, rfl⟩ := Option.map_eq_some_iff.mp h
  exact within_str d s

theorem within_secretOut {d : ℕ} (h : secretOut (.str s) known = some v) : Within d v := by
  unfold secretOut at h
  split_ifs at h
  · obtain rfl := Option.some.inj h
    exact within_str d s
  · obtain rfl := Option.some.inj h
    exact within_str d KEEP

theorem within_sentAnswers (t : Typed) : Within 1 (.obj (sparse t.sentAnswers)) := by
  refine within_sparse fun e he v hv => ?_
  unfold Typed.sentAnswers at he
  split_ifs at he
  · simp only [List.cons_append, List.nil_append, List.mem_cons, List.not_mem_nil, or_false] at he
    rcases he with rfl | rfl | rfl | rfl | rfl | rfl | rfl
    · exact within_text hv
    · exact within_text hv
    · exact within_secretOut hv
    · exact within_text hv
    · exact within_text hv
    · exact within_text hv
    · exact within_secretOut hv
  · simp only [List.append_nil, List.mem_cons, List.not_mem_nil, or_false] at he
    rcases he with rfl | rfl | rfl
    · exact within_text hv
    · exact within_text hv
    · exact within_secretOut hv

/-- The form sends strings, a truth value and one block of strings. -/
theorem within_sentSettings (t : Typed) : Within 2 (.obj (sparse t.sentSettings)) := by
  refine within_sparse fun e he v hv => ?_
  simp only [Typed.sentSettings, List.mem_cons, List.not_mem_nil, or_false] at he
  rcases he with rfl | rfl | rfl | rfl | rfl | rfl
  · obtain ⟨-, hv⟩ := Option.ite_none_right_eq_some.mp hv
    obtain rfl := Option.some.inj hv
    exact within_str 1 t.mode
  · exact within_text hv
  · exact within_text hv
  · exact within_text hv
  · obtain rfl := Option.some.inj hv
    exact within_bool 1 t.confirmWipe
  · obtain ⟨-, hv⟩ := Option.ite_none_right_eq_some.mp hv
    obtain rfl := Option.some.inj hv
    exact within_sentAnswers t

/-- The server decodes the form that is sent. -/
theorem config_save (serial : Serial) (ivs : String → IV) (faults : Faults)
    (h : (t.body serial.1).length ≤ maxBody) :
    (Edit.save serial t ivs faults).put.config = some (some t.config) := by
  have hbody : readBody (.ofBytes (t.body serial.1)) maxBody = some (t.body serial.1) := by
    rw [readBody, Stream.readAll, if_pos ((Stream.ends_ofBytes _).limit _), Stream.bytes_limit,
      Stream.bytes_ofBytes, List.take_of_length_le h]
  rw [ConfigPut.config, Edit.put, hbody, Option.bind_some, Typed.body, toConfig_fields,
    Option.getD_some, unmarshal_stringify ((within_sentSettings t).mono (by decide))]
  rfl

/-! ## The plaintext store shows the sheets -/

/-- A plaintext config shows a sheet. -/
inductive ShowsSheet : Option Config → Option Sheet → Prop
  | absent : ShowsSheet none none
  | sheet {cfg : Config} {sheet : Sheet}
    (settings : ∀ k, k ≠ "unattend" → cfg.object.lookup k = sheet.setting k)
    (answers : ∀ k, (cfg.unattend.getD Object.empty).lookup k = sheet.answer k) :
    ShowsSheet (some cfg) (some sheet)

/-- Every machine's file shows its sheet. -/
def Shows (s : PlainStore) (sheets : Serial → Option Sheet) : Prop :=
  ∀ serial, ShowsSheet (s (.machine serial)) (sheets serial)

variable {store : PlainStore} {sheets : Serial → Option Sheet} {cfg : Config}

theorem unattend_putConfig (prev : Object) (cfg : Config) :
    (PlainStore.putConfig prev cfg).unattend.getD Object.empty =
      PlainStore.putUnattend prev (cfg.unattend.getD Object.empty) := by
  unfold PlainStore.putConfig
  split
  · next un hun => rw [hun, unattend_setObject, Option.getD_some, Option.getD_some]
  · next hun =>
    rw [hun]
    ext1 k
    simp [PlainStore.putUnattend]

theorem lookup_putConfig (hk : k ≠ "unattend") (prev : Object) (cfg : Config) :
    (PlainStore.putConfig prev cfg).object.lookup k = cfg.object.lookup k := by
  unfold PlainStore.putConfig
  split
  · exact lookup_setObject.trans (if_neg hk)
  · rfl

/-- The block of a file shows the answers of its sheet, or of the blank one. -/
theorem Shows.unattend (h : Shows store sheets) (serial : Serial) (k : String) :
    (store.unattend (.machine serial)).lookup k =
      ((sheets serial).getD Sheet.blank).answer k := by
  have hblank : Sheet.blank.answer k = none := by
    simp [Sheet.answer, Sheet.blank]
  have hshown := h serial
  rw [PlainStore.unattend]
  generalize store (.machine serial) = file, sheets serial = sheet at hshown ⊢
  cases hshown with
  | absent => exact hblank.symm
  | sheet settings answers => exact answers k

/-- An accepted edit changes the sheet as it changes the file. -/
theorem Shows.apply (h : Shows store sheets) (e : Edit) (he : e.Plain)
    (hcfg : e.put.config = some cfg) : Shows (store.put e.put.file cfg) (e.apply sheets) := by
  intro serial
  cases e with
  | putDefault body ivs faults =>
    rw [PlainStore.put, Function.update_of_ne (by simp [Edit.put])]
    exact h serial
  | save serial' t ivs faults =>
    rw [config_save _ _ _ he.2, Option.some.injEq] at hcfg
    subst hcfg
    rw [PlainStore.put, Edit.put, Edit.apply]
    by_cases hserial : serial = serial'
    · subst hserial
      rw [Function.update_self, Function.update_self]
      refine .sheet (fun k hk => ?_) fun k => ?_
      · rw [lookup_putConfig hk]
        exact lookup_config hk _
      · rw [unattend_putConfig]
        exact lookup_putUnattend _ fun k => h.unattend serial k
    · rw [Function.update_of_ne (by simpa using hserial), Function.update_of_ne hserial]
      exact h serial

theorem Edit.Plain.putPlain {P : Primitives} {masterKey : Option Key} {sha256 : Bytes → Digest}
    {e : Edit} (he : e.Plain) (d : Disk) : PutPlain P masterKey sha256 e.put d := by
  intro _ cfg hcfg
  cases e with
  | putDefault body ivs faults => exact he cfg hcfg
  | save serial t ivs faults =>
    rw [config_save _ _ _ he.2, Option.some.injEq] at hcfg
    exact hcfg ▸ plainBody_config he.1

/-- A run of edits keeps both refinements. -/
theorem refines_edits {P : Primitives} {key : Key} {sha256 : Bytes → Digest} {es : List Edit}
    {d : Disk} (h : Refines P key d store) (hshows : Shows store sheets)
    (hes : ∀ e ∈ es, e.Plain) :
    Refines P key (runPuts P (some key) sha256 (es.map Edit.put) d)
        (plainPuts P (some key) sha256 (es.map Edit.put) d store) ∧
      Shows (plainPuts P (some key) sha256 (es.map Edit.put) d store)
        (sheetsAfter P (some key) sha256 es d sheets) := by
  induction es generalizing d store sheets with
  | nil => exact ⟨h, hshows⟩
  | cons e es ih =>
    have he : e.Plain := hes e List.mem_cons_self
    refine ih (h.handle (he.putPlain d)) ?_ fun e' he' => hes e' (List.mem_cons_of_mem _ he')
    rcases handle_file P (some key) sha256 e.put d e.put.file with
      ⟨hstatus, cfg, hcfg, -⟩ | ⟨hstatus, -⟩
    · rw [if_pos hstatus, if_pos hstatus, hcfg, Option.elim_some]
      exact hshows.apply e he hcfg
    · rw [if_neg hstatus, if_neg hstatus]
      exact hshows

/-! ## What is served -/

theorem blockOf_mergeConfig (base per : Config) :
    blockOf (Api.mergeConfig base per) = Api.mergedUnattend base per := by
  rw [blockOf]
  have hlookup := @Api.lookup_mergeConfig_unattend base per
  by_cases hnil : (Api.mergedUnattend base per).members = []
  · -- an empty merged block leaves what the default has, which is no block or an empty one
    rw [if_pos hnil] at hlookup
    cases hun : Config.unattend (some (Api.mergeConfig base per)) with
    | none =>
      ext1 k
      rw [Option.getD_none, Object.members_eq_nil_iff.mp hnil k]
      rfl
    | some un =>
      rw [Config.unattend, object?_eq_some] at hun
      change (Api.mergeConfig base per).lookup "unattend" = _ at hun
      rw [hlookup] at hun
      have hbase : base.unattend = some un := object?_eq_some.mpr hun
      have hun := Api.mergedUnattend_members_eq_nil hnil hbase
      ext1 k
      rw [Option.getD_some, Object.members_eq_nil_iff.mp hnil k,
        Object.members_eq_nil_iff.mp hun k]
  · rw [if_neg hnil] at hlookup
    have hun : Config.unattend (some (Api.mergeConfig base per)) =
        some (Api.mergedUnattend base per) := object?_eq_some.mpr hlookup
    rw [hun, Option.getD_some]

/-- A form of which only a name and a password are typed. -/
def sampleForm (computerName pass : String) (localAdminPassSet : Bool) : Typed where
  computerName := computerName
  mode := ""
  targetDisk := ""
  imageUrl := ""
  confirmWipe := false
  joinDomain := false
  TIMEZONE := ""
  LOCALADMINUSER := ""
  LOCALADMINPASS := pass
  JOINDOMAIN := ""
  DOMAINOU := ""
  DOMAINUSER := ""
  DOMAINPASS := ""
  localAdminPassSet := localAdminPassSet
  domainPassSet := false

/-- A password is typed, and the form is saved again with the field left blank. -/
def sampleEdits : List Edit :=
  [.save sampleSerial (sampleForm "" "pw" false) sampleIVs Faults.none,
    .save sampleSerial (sampleForm "PC-7" "" true) sampleIVs Faults.none]

theorem sampleEdits_plain : ∀ e ∈ sampleEdits, e.Plain := by
  intro e he
  simp only [sampleEdits, List.mem_cons, List.not_mem_nil, or_false] at he
  rcases he with rfl | rfl
  · exact ⟨by unfold Typed.Plain; decide, by decide +kernel⟩
  · exact ⟨by unfold Typed.Plain; decide, by decide +kernel⟩

end WinDep.Editor
