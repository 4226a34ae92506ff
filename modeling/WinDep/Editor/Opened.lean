/-
# What the editor shows

The editor reads a machine's config through the mask. What it shows is the sheet
of the machine: every field as it was typed, every password blank, and beside it
only whether one is stored. The form can be sent back as it is. It gives the
sheet back unless the sheet leaves the mode to the default, or sets a member of
a domain but no domain.
-/

import WinDep.Config.Masking
import WinDep.Editor.Edits

namespace WinDep

open Json

/-! ## Reading a config -/

/-- The reply to a request for a config file; `readFails` is a fault of the disk. -/
def Admin.handleConfigGet (readFails : Bool) (rel : String) (d : Disk) : Except Reply Bytes :=
  match resolvePath "config" rel with
  | none => .error (.error 400 "unknown category")
  | some dest =>
    if readFails then .error (.error 500 "read failed")
    else
      match d dest with
      | none => .error (.error 404 "not found")
      | some raw =>
        match maskConfigJSON raw with
        | none => .error (.error 422 "not valid config json")
        | some masked => .ok masked

namespace Editor

open Object Admin Api

/-- Open the form of a machine. A reply that is no config leaves the form closed. -/
def openEdit (readFails : Bool) (serial : Serial) (d : Disk) : Option Fields :=
  match handleConfigGet readFails (ConfigFile.machine serial).rel d with
  | .error _ => none
  | .ok page => (Json.parse (Utf8.decode page)).bind (fromConfig serial.1)

/-- The form that shows a sheet. -/
def Sheet.opened (s : Sheet) : Typed where
  computerName := s.computerName.getD ""
  mode := s.mode.getD "zerotouch"
  targetDisk := s.targetDisk.getD ""
  imageUrl := s.imageUrl.getD ""
  confirmWipe := s.confirmWipe.getD false
  joinDomain := s.JOINDOMAIN.isSome
  TIMEZONE := s.TIMEZONE.getD ""
  LOCALADMINUSER := s.LOCALADMINUSER.getD ""
  LOCALADMINPASS := ""
  JOINDOMAIN := s.JOINDOMAIN.getD ""
  DOMAINOU := s.DOMAINOU.getD ""
  DOMAINUSER := s.DOMAINUSER.getD ""
  DOMAINPASS := ""
  localAdminPassSet := s.LOCALADMINPASS.isSome
  domainPassSet := s.DOMAINPASS.isSome

/-! ## Sheets that were saved -/

/-- A text that a saved form leaves. -/
def IsText (o : Option String) : Prop := ∀ s, o = some s → trimString s = s ∧ s ≠ ""

/-- A sheet that a form left. -/
structure Sheet.Saved (s : Sheet) : Prop where
  mode : s.mode ≠ some ""
  targetDisk : IsText s.targetDisk
  computerName : IsText s.computerName
  imageUrl : IsText s.imageUrl
  confirmWipe : s.confirmWipe.isSome = true
  TIMEZONE : IsText s.TIMEZONE
  LOCALADMINUSER : IsText s.LOCALADMINUSER
  JOINDOMAIN : IsText s.JOINDOMAIN
  DOMAINOU : IsText s.DOMAINOU
  DOMAINUSER : IsText s.DOMAINUSER

theorem rdropWhile_dropWhile_idem {α : Type*} (p : α → Bool) (l : List α) :
    (((l.dropWhile p).rdropWhile p).dropWhile p).rdropWhile p =
      (l.dropWhile p).rdropWhile p := by
  have hhead : ((l.dropWhile p).rdropWhile p).dropWhile p = (l.dropWhile p).rdropWhile p := by
    rw [List.dropWhile_eq_self_iff]
    intro hlen
    rw [(List.rdropWhile_prefix p (l.dropWhile p)).getElem hlen]
    exact List.dropWhile_get_zero_not p l _
  rw [hhead, List.rdropWhile_idempotent]

theorem trimString_trimString (s : String) : trimString (trimString s) = trimString s := by
  rw [trimString, trimString, String.toList_ofList, rdropWhile_dropWhile_idem]

theorem isText_text (s : String) : IsText (Sheet.text s) := by
  unfold Sheet.text
  split_ifs with h
  · rintro _ ⟨⟩
  · rintro _ ⟨⟩
    exact ⟨trimString_trimString s, h⟩

theorem isText_ite {b : Bool} {o : Option String} (h : IsText o) :
    IsText (if b then o else none) := by
  split_ifs
  · exact h
  · rintro _ ⟨⟩

theorem IsText.text {o : Option String} (h : IsText o) : Sheet.text (o.getD "") = o := by
  cases o with
  | none => rfl
  | some s =>
    obtain ⟨htrim, hs⟩ := h s rfl
    rw [Option.getD_some, Sheet.text, htrim, if_neg hs]

theorem saved_save (prev : Sheet) (t : Typed) : (prev.save t).Saved := by
  rw [Sheet.save]
  constructor
  case mode =>
    by_cases h : t.mode = "" <;> simp [h]
  case confirmWipe => rfl
  all_goals dsimp only
  case JOINDOMAIN | DOMAINOU | DOMAINUSER => exact isText_ite (isText_text _)
  all_goals exact isText_text _

/-- A blank password field leaves the password. -/
theorem password_blank (o : Option String) : Sheet.password "" o.isSome o = o := by
  cases o <;> rfl

/-- **Saving a form as it was opened.** The mode is always written, and without a domain no
member of one is. -/
theorem Sheet.Saved.save_opened {s : Sheet} (h : s.Saved) :
    s.save s.opened = s ↔ s.mode.isSome = true ∧
      (s.JOINDOMAIN = none → s.DOMAINOU = none ∧ s.DOMAINUSER = none ∧ s.DOMAINPASS = none) := by
  have hmode : (s.save s.opened).mode = s.mode ↔ s.mode.isSome = true := by
    change (if s.mode.getD "zerotouch" = "" then none else some (s.mode.getD "zerotouch")) = _ ↔ _
    cases hm : s.mode with
    | none => simp
    | some m =>
      have hne : m ≠ "" := fun hm' => h.mode (hm'.symm ▸ hm)
      simp [hne]
  have hwipe : (s.save s.opened).confirmWipe = s.confirmWipe := by
    change some (s.confirmWipe.getD false) = _
    obtain ⟨b, hb⟩ := Option.isSome_iff_exists.mp h.confirmWipe
    rw [hb, Option.getD_some]
  have hdomain (o : Option String) :
      (if s.JOINDOMAIN.isSome = true then o else none) = o ↔ (s.JOINDOMAIN = none → o = none) := by
    cases s.JOINDOMAIN with
    | none => simp [eq_comm]
    | some d => simp
  rw [Sheet.ext_iff, hmode, hwipe]
  simp only [Sheet.save, Sheet.opened, h.targetDisk.text, h.computerName.text, h.imageUrl.text,
    h.TIMEZONE.text, h.LOCALADMINUSER.text, password_blank, h.JOINDOMAIN.text, h.DOMAINOU.text,
    h.DOMAINUSER.text, hdomain]
  constructor
  · rintro ⟨hm, -, -, -, -, -, -, -, -, hou, huser, hpass⟩
    exact ⟨hm, fun hnone => ⟨hou hnone, huser hnone, hpass hnone⟩⟩
  · rintro ⟨hm, hnone⟩
    exact ⟨hm, trivial, trivial, trivial, trivial, trivial, trivial, trivial, id,
      fun hj => (hnone hj).1, fun hj => (hnone hj).2.1, fun hj => (hnone hj).2.2⟩

/-! ## What is stored in the clear -/

/-- A stored config whose block, if it has one, is an object with no envelope but in its secret
members. -/
structure PlainFile (cfg : Config) : Prop where
  isObject : cfg.isSome = true
  block : ∀ v, cfg.object.lookup "unattend" = some v → ∃ un : Object, v = un.toJson ∧
    ∀ k w, isSecretField k = false → un.lookup k = some w → PlainString w

/-- Every stored file is one. -/
def PlainFiles (d : Disk) : Prop :=
  ∀ (f : ConfigFile) (cfg : Config), d f.path = some (marshalIndent cfg) → PlainFile cfg

variable {P : Primitives} {masterKey : Option Key} {key : Key} {sha256 : Bytes → Digest}
  {ivs : String → IV} {prevUn : Object} {cfg : Config} {d : Disk} {put : ConfigPut} {o : Object}
  {sheet : Sheet} {store : PlainStore} {sheets : Serial → Option Sheet} {es : List Edit}
  {serial : Serial} {k : String}

theorem plainFile_storeConfig (h : PlainBody cfg) :
    PlainFile (storeConfig P masterKey ivs prevUn cfg) := by
  constructor
  · have hsome := h.isObject
    rw [Option.isSome_iff_ne_none] at hsome ⊢
    exact fun hnone => hsome (storeConfig_eq_none.mp hnone)
  · intro v hv
    cases hun : cfg.unattend with
    | none =>
      -- a plain body has an object for a block
      rw [lookup_unattend_storeConfig hun] at hv
      obtain ⟨un, rfl, -⟩ := h.block v hv
      exact absurd hv (object?_eq_none.mp hun un)
    | some un =>
      have hstored := @unattend_storeConfig P masterKey ivs prevUn cfg
      rw [hun, Option.map_some, Config.unattend, object?_eq_some] at hstored
      change (storeConfig P masterKey ivs prevUn cfg).object.lookup "unattend" = _ at hstored
      rw [hstored, Option.some.injEq] at hv
      refine ⟨_, hv.symm, fun k w hk hw => ?_⟩
      rw [lookup_storeUnattend, Option.bind_eq_some_iff] at hw
      obtain ⟨w', hw', hw⟩ := hw
      rw [storeMember_of_not_secret hk, Option.some.injEq] at hw
      exact hw ▸ h.strings hun hw'

theorem PlainFiles.handle (h : PlainFiles d) (hput : PutPlain P masterKey sha256 put d) :
    PlainFiles (put.handle P masterKey sha256 d).2 := by
  intro f cfg hcfg
  rcases handle_file P masterKey sha256 put d f with ⟨hstatus, body, hbody, hfile⟩ | ⟨-, hfile⟩
  · rw [hfile] at hcfg
    split_ifs at hcfg
    · rw [← marshalIndent_injective (Option.some.inj hcfg)]
      exact plainFile_storeConfig (hput hstatus body hbody)
    · exact h f cfg hcfg
  · exact h f cfg (hfile ▸ hcfg)

/-- A run of edits keeps plain files, and leaves saved sheets. -/
theorem plainFiles_edits (h : PlainFiles d) (hes : ∀ e ∈ es, e.Plain) :
    PlainFiles (runPuts P masterKey sha256 (es.map Edit.put) d) := by
  induction es generalizing d with
  | nil => exact h
  | cons e es ih =>
    exact ih (h.handle ((hes e List.mem_cons_self).putPlain d))
      fun e' he' => hes e' (List.mem_cons_of_mem _ he')

theorem saved_sheetsAfter (h : ∀ serial sheet, sheets serial = some sheet → sheet.Saved) :
    ∀ serial sheet, sheetsAfter P masterKey sha256 es d sheets serial = some sheet →
      sheet.Saved := by
  induction es generalizing d sheets with
  | nil => exact h
  | cons e es ih =>
    refine ih ?_
    split_ifs
    · cases e with
      | putDefault body ivs faults => exact h
      | save serial' t ivs faults =>
        intro serial sheet hsheet
        rw [Edit.apply, Function.update_apply] at hsheet
        split_ifs at hsheet
        · exact Option.some.inj hsheet ▸ saved_save _ _
        · exact h serial sheet hsheet
    · exact h

/-! ## The form of a stored config -/

/-- A stored config that holds a sheet, the passwords sealed. -/
structure Holds (o : Object) (sheet : Sheet) : Prop where
  documented : Documented o
  settings : ∀ k, k ≠ "unattend" → o.lookup k = sheet.setting k
  plain : ∀ k, isSecretField k = false → (blockOf o).lookup k = sheet.answer k
  secret : ∀ k, isSecretField k = true →
    ((blockOf o).lookup k).isSome = (sheet.answer k).isSome

theorem orElse_map_str (w : Option String) (s : String) :
    orElse (w.map .str) (.str s) = .str (w.getD s) := by
  cases w <;> rfl

/-- A stored password shows as the sentinel. -/
theorem Holds.masked (h : Holds o sheet) (hk : isSecretField k = true) :
    ((blockOf o).lookup k).map (maskMember k) = (sheet.answer k).map fun _ => .str KEEP := by
  have hsome := h.secret k hk
  cases hv : (blockOf o).lookup k with
  | none =>
    rw [hv, Option.isSome_none, eq_comm, Option.isSome_eq_false_iff, Option.isNone_iff_eq_none]
      at hsome
    rw [hsome]
    rfl
  | some v =>
    rw [hv] at hsome
    obtain ⟨w, hw⟩ := Option.isSome_iff_exists.mp hsome.symm
    obtain ⟨-, s, rfl, hs⟩ := blockOf_lookup h.documented hv
    rw [hw, Option.map_some, Option.map_some, maskMember_set hk hs]
    rfl

theorem Holds.fromConfig (h : Holds o sheet) (hsaved : sheet.Saved) (serial : String) :
    fromConfig serial (maskConfig (some o)).toJson = some (sheet.opened.fields serial) := by
  obtain ⟨ms, hms⟩ : ∃ ms, (maskConfig (some o)).toJson = .obj ms := by
    unfold maskConfig
    split <;> exact ⟨_, rfl⟩
  have hget (k : String) (hk : k ≠ "unattend") : (Json.obj ms).get? k = sheet.setting k := by
    rw [← hms, get?_maskConfig_of_ne hk, h.settings k hk]
  have hblock (k : String) : (orElse ((Json.obj ms).get? "unattend") (.obj [])).get? k =
      ((blockOf o).lookup k).map (maskMember k) := hms ▸ get?_maskConfig h.documented
  -- the plain answers are shown as they are, and a set secret as the sentinel
  have hplain (k : String) (hk : isSecretField k = false) :
      (orElse ((Json.obj ms).get? "unattend") (.obj [])).get? k = sheet.answer k := by
    rw [hblock, show maskMember k = id from funext fun v => maskMember_of_not_secret hk,
      Option.map_id, id, h.plain k hk]
  have hsecret (k : String) (hk : isSecretField k = true) :
      (orElse ((Json.obj ms).get? "unattend") (.obj [])).get? k =
        (sheet.answer k).map fun _ => .str KEEP := by
    rw [hblock, h.masked hk]
  -- what the form makes of a field that may be absent
  have hset (w : Option Json) : isKeep (w.map fun _ => .str KEEP) = w.isSome := by
    cases w <;> simp [isKeep]
  have hblank (w : Option Json) : (if w.isSome = true then Json.str "" else
      orElse (w.map fun _ => .str KEEP) (.str "")) = .str "" := by
    cases w <;> rfl
  have hwipe (w : Option Bool) : truthy (orElse (w.map .bool) .null) = w.getD false := by
    cases w <;> rfl
  have hjoin : truthy (orElse (sheet.JOINDOMAIN.map .str) .null) = sheet.JOINDOMAIN.isSome := by
    cases hj : sheet.JOINDOMAIN with
    | none => rfl
    | some s => simp [truthy, orElse, (hsaved.JOINDOMAIN s hj).2]
  simp only [hms, Editor.fromConfig, hget "computerName" (by decide), hget "mode" (by decide),
    hget "targetDisk" (by decide), hget "imageUrl" (by decide), hget "confirmWipe" (by decide),
    hplain "TIMEZONE" (by decide), hplain "LOCALADMINUSER" (by decide),
    hplain "JOINDOMAIN" (by decide), hplain "DOMAINOU" (by decide),
    hplain "DOMAINUSER" (by decide), hsecret "LOCALADMINPASS" (by decide),
    hsecret "DOMAINPASS" (by decide), hset, hblank]
  simp only [Sheet.setting, Sheet.answer, String.reduceEq, if_true, if_false, orElse_map_str,
    hwipe, hjoin, Option.isSome_map]
  rfl

theorem setting_mem {v : Json} (h : sheet.setting k = some v) :
    k ∈ ["mode", "targetDisk", "computerName", "imageUrl", "confirmWipe", "unattend"] := by
  unfold Sheet.setting at h
  split_ifs at h <;> simp_all

theorem answer_mem {v : Json} (h : sheet.answer k = some v) : k ∈ unattendFields := by
  unfold Sheet.answer at h
  split_ifs at h <;> simp_all [unattendFields]

/-- An answer that is no password is a text. -/
theorem Sheet.Saved.answer {s : String} (hsaved : sheet.Saved) (hk : isSecretField k = false)
    (h : sheet.answer k = some (.str s)) : s ≠ "" := by
  have htext {o : Option String} (ho : IsText o) (h : o.map Json.str = some (.str s)) : s ≠ "" := by
    obtain ⟨t, rfl, ht⟩ := Option.map_eq_some_iff.mp h
    exact Json.str.inj ht ▸ (ho t rfl).2
  unfold Sheet.answer at h
  split_ifs at h with h1 h2 h3 h4 h5 h6 h7
  · exact htext hsaved.TIMEZONE h
  · exact htext hsaved.LOCALADMINUSER h
  · rw [h3] at hk
    exact absurd hk (by decide)
  · exact htext hsaved.JOINDOMAIN h
  · exact htext hsaved.DOMAINOU h
  · exact htext hsaved.DOMAINUSER h
  · rw [h7] at hk
    exact absurd hk (by decide)

theorem setting_isString {v : Json} (hk : k ≠ "confirmWipe") (h : sheet.setting k = some v) :
    IsString v := by
  unfold Sheet.setting at h
  split_ifs at h
  all_goals
    obtain ⟨s, -, rfl⟩ := Option.map_eq_some_iff.mp h
    exact ⟨s, rfl⟩

/-- A config with the settings of a sheet and a block of documented strings is documented. -/
theorem documented_of_setting (hsetting : ∀ k, k ≠ "unattend" → o.lookup k = sheet.setting k)
    (hblock : ∀ v, o.lookup "unattend" = some v → v = (blockOf o).toJson)
    (hmembers : ∀ k v, (blockOf o).lookup k = some v → k ∈ unattendFields ∧ IsNonemptyString v) :
    Documented o where
  names k v hv := by
    by_cases hk : k = "unattend"
    · simp [hk]
    · exact setting_mem ((hsetting k hk).symm.trans hv)
  mode v hv := setting_isString (by decide) ((hsetting _ (by decide)).symm.trans hv)
  targetDisk v hv := .inl (setting_isString (by decide) ((hsetting _ (by decide)).symm.trans hv))
  computerName v hv := setting_isString (by decide) ((hsetting _ (by decide)).symm.trans hv)
  imageUrl v hv := setting_isString (by decide) ((hsetting _ (by decide)).symm.trans hv)
  confirmWipe v hv := by
    rw [hsetting _ (by decide)] at hv
    obtain ⟨b, -, rfl⟩ := Option.map_eq_some_iff.mp hv
    exact ⟨b, rfl⟩
  unattend v hv := ⟨_, hblock v hv, hmembers⟩

theorem PlainFile.block_eq {v : Json} (h : PlainFile (some o))
    (hv : o.lookup "unattend" = some v) : v = (blockOf o).toJson := by
  obtain ⟨un, rfl, -⟩ := h.block v hv
  have hun : Config.unattend (some o) = some un := object?_eq_some.mpr hv
  rw [blockOf, hun, Option.getD_some]

/-- A password of a stored file is not blank, and any other member is in the clear. -/
theorem PlainFile.member {v : Json} (h : PlainFile (some o))
    (hsecrets : ∀ un, Config.unattend (some o) = some un → SecretStrings un)
    (hv : (blockOf o).lookup k = some v) :
    ∃ s, v = .str s ∧ (isSecretField k = true → s ≠ "") ∧
      (isSecretField k = false → Envelope.isEncrypted (toBytes s) = false) := by
  cases hun : Config.unattend (some o) with
  | none =>
    rw [blockOf, hun] at hv
    cases hv
  | some un =>
    rw [blockOf, hun, Option.getD_some] at hv
    cases hk : isSecretField k with
    | true =>
      obtain ⟨s, rfl, hs⟩ := hsecrets un hun k v hv hk
      exact ⟨s, rfl, fun _ => hs, fun h => absurd h (by simp)⟩
    | false =>
      obtain ⟨un', hun', hclear⟩ := h.block _ (object?_eq_some.mp hun)
      obtain rfl := toJson_injective hun'
      obtain ⟨s, rfl, hs⟩ := hclear k v hk hv
      exact ⟨s, rfl, fun h => absurd h (by simp), fun _ => hs⟩

/-- A file of both stores holds the sheet of its machine. -/
theorem holds_of_shows (hrefines : Refines P key d store) (hshows : Shows store sheets)
    (hplain : PlainFiles d) (hsheet : sheets serial = some sheet) (hsaved : sheet.Saved) :
    ∃ o, d (ConfigFile.machine serial).path = some (marshalIndent (some o)) ∧ Holds o sheet := by
  obtain ⟨cfg, hd, hs, hsecrets⟩ := hrefines.file (.machine serial)
  obtain ⟨cfg', hd', hopens⟩ := hrefines.opens (.machine serial)
  obtain rfl : cfg = cfg' := Option.map_injective marshalIndent_injective (hd.symm.trans hd')
  have hshown := hshows serial
  rw [hsheet, hs] at hshown
  cases cfg with
  | none => cases hshown
  | some cfg =>
    have hfile := hplain (.machine serial) cfg hd
    obtain ⟨o, rfl⟩ := Option.isSome_iff_exists.mp hfile.isObject
    cases hshown with
    | sheet settings answers =>
      -- the settings are not sealed; the answers are those of the sheet once opened
      have hsetting (k : String) (hk : k ≠ "unattend") : o.lookup k = sheet.setting k :=
        (lookup_openConfig hk).symm.trans (settings k hk)
      have hanswer (k : String) : ((blockOf o).lookup k).bind
          (fun v => (decryptMember P (some key) v).toOption) = sheet.answer k := by
        rw [← answers k, getD_unattend_openConfig, lookup_openMembers]
        rfl
      have hmember (k : String) (v : Json) (hv : (blockOf o).lookup k = some v) :=
        hfile.member (fun un => hsecrets _ un rfl) hv
      have hsome (k : String) : ((blockOf o).lookup k).isSome = (sheet.answer k).isSome := by
        rw [← hanswer k]
        cases hv : (blockOf o).lookup k with
        | none => rfl
        | some v =>
          obtain ⟨w, hw⟩ := (hopens _ rfl).2.getD k v hv
          rw [Option.bind_some, hw]
          rfl
      -- opening leaves a plain answer alone, so it is in the file as it was typed
      have hclear (k : String) (hk : isSecretField k = false) :
          (blockOf o).lookup k = sheet.answer k := by
        rw [← hanswer k]
        cases hv : (blockOf o).lookup k with
        | none => rfl
        | some v =>
          obtain ⟨s, rfl, -, hs⟩ := hmember k v hv
          rw [Option.bind_some, decryptMember_plain (hs hk)]
          rfl
      refine ⟨o, hd, documented_of_setting hsetting (fun v => hfile.block_eq) fun k v hv => ?_,
        hsetting, hclear, fun k _ => hsome k⟩
      have hk := hsome k
      rw [hv, Option.isSome_some, eq_comm, Option.isSome_iff_exists] at hk
      obtain ⟨w, hw⟩ := hk
      obtain ⟨s, rfl, hsecret, -⟩ := hmember k v hv
      refine ⟨answer_mem hw, s, rfl, ?_⟩
      cases hsec : isSecretField k with
      | true => exact hsecret hsec
      | false => exact hsaved.answer hsec ((hclear k hsec).symm.trans hv)

/-! ## What is opened -/

theorem openEdit_missing (h : d (ConfigFile.machine serial).path = none) :
    openEdit false serial d = none := by
  simp [openEdit, handleConfigGet, resolvePath_rel, h]

theorem openEdit_file (hcfg : cfg.Shallow)
    (h : d (ConfigFile.machine serial).path = some (marshalIndent cfg)) :
    openEdit false serial d = fromConfig serial.1 (maskConfig cfg).toJson := by
  have hmasked : maskConfigJSON (marshalIndent cfg) = some (marshalIndent (maskConfig cfg)) :=
    maskConfigJSON_eq_some.mpr
      ⟨cfg, by rw [trimBOM_marshalIndent, unmarshal_marshalIndent hcfg], rfl⟩
  have hparse : Json.parse (Utf8.decode (marshalIndent (maskConfig cfg))) =
      some (maskConfig cfg).toJson := by
    rw [marshalIndent, Utf8.decode_encode, parse_printValue]
  simp only [openEdit, handleConfigGet, resolvePath_rel, h, hmasked, Bool.false_eq_true, if_false]
  rw [hparse, Option.bind_some]

end Editor

end WinDep
