/-
# The config store

The admin writes `default.json` and one file for each machine, the api reads
them. Both programs build the same path for a file, and no file is a companion
of another, so a write changes the file it names and no other.
-/

import WinDep.Config.Resolve

namespace WinDep

open Json

/-- A machine serial the api accepts. -/
abbrev Serial := {s : String // Api.validSerial s = true}

inductive ConfigFile
  | defaultJson
  | machine (serial : Serial)
  deriving DecidableEq

/-- The name of the file below `config`, as both programs spell it. -/
def ConfigFile.rel : ConfigFile → String
  | defaultJson => "default.json"
  | machine serial => "machines/" ++ serial.1 ++ ".json"

def ConfigFile.path : ConfigFile → Path
  | defaultJson => ["config", "default.json"]
  | machine serial => ["config", "machines", serial.1 ++ ".json"]

namespace Admin

section

variable (P : Primitives) (masterKey : Option Key) (sha256 : Bytes → Digest)

/-- What is read of a request body at most. -/
def maxBody : ℕ := 2 ^ 20

def readBody (body : Stream) (max : ℕ) : Option Bytes := (body.limit max).readAll

/-- Store a config over the previous one. -/
def putConfig (faults : Faults) (ivs : String → IV) (base : String) (body : Stream)
    (t : Target) : Reply × Target :=
  match readBody body maxBody with
  | none => (.error 400 "read failed", t)
  | some raw =>
    -- a config that is new is stored over no previous bytes
    match encryptConfigJSON P masterKey ivs raw (t.file.getD []) with
    | none => (.error 400 "invalid config json", t)
    | some out =>
      if faults.mkdirAll then (.error 500 "mkdir failed", t)
      else
        match saveStream faults sha256 (.ofBytes out) t with
        | (t, none) => (.error 500 "write failed", t)
        | (t, some sum) => (.send 201, writeSidecar base faults sum t)

def handleConfigPut (faults : Faults) (ivs : String → IV) (rel : String) (body : Stream)
    (d : Disk) : Reply × Disk :=
  if rel = "" ∨ rel.toList.getLast? = some '/' then (.error 400 "missing file name", d)
  else
    match resolvePath "config" rel with
    | none => (.error 400 "unknown category", d)
    | some dest => d.handle dest (putConfig P masterKey sha256 faults ivs dest.base body)

/-- A request to store a config file, with the random vectors it draws and the outcome of its
system calls. -/
structure ConfigPut where
  file : ConfigFile
  body : Stream
  ivs : String → IV
  faults : Faults

def ConfigPut.handle (put : ConfigPut) (d : Disk) : Reply × Disk :=
  handleConfigPut P masterKey sha256 put.faults put.ivs put.file.rel put.body d

/-- The disk after a sequence of requests. -/
def runPuts (puts : List ConfigPut) (d : Disk) : Disk :=
  puts.foldl (fun d put => (put.handle P masterKey sha256 d).2) d

theorem runPuts_concat {P : Primitives} {masterKey : Option Key} {sha256 : Bytes → Digest}
    (puts : List ConfigPut) (put : ConfigPut) (d : Disk) :
    runPuts P masterKey sha256 (puts ++ [put]) d =
      runPuts P masterKey sha256 [put] (runPuts P masterKey sha256 puts d) :=
  List.foldl_append

end

end Admin

/-! ## The two programs agree on paths -/

open WinDep.Path

variable {P : Primitives} {masterKey : Option Key} {sha256 : Bytes → Digest} {f g : ConfigFile}
  {serial : Serial} {d : Disk}

theorem serial_toList {c : Char} (hc : c ∈ serial.1.toList) : c.isAlphanum = true ∨ c = '-' := by
  have hvalid := serial.2
  simp only [Api.validSerial, Bool.and_eq_true, List.all_eq_true] at hvalid
  simpa using hvalid.1.1 c hc

theorem machine_not_mem_slash (ext : String) (hext : '/' ∉ ext.toList) :
    '/' ∉ (serial.1 ++ ext).toList := by
  rw [String.toList_append, List.mem_append]
  rintro (h | h)
  · exact absurd (serial_toList h) (by decide)
  · exact hext h

theorem plain_json (s : String) : Plain (s ++ ".json") := by
  have hlen : 5 ≤ (s ++ ".json").toList.length := by simp
  have ne {w : String} (hw : w.toList.length < 5) : s ++ ".json" ≠ w := by
    intro h
    rw [h] at hlen
    omega
  exact ⟨ne (by decide), ne (by decide), ne (by decide)⟩

/-- Joining the name of a config file to clean segments appends its own segments. -/
theorem join_rel (p : Path) (f : ConfigFile) : Path.join p f.rel = p ++ f.path.tail := by
  cases f with
  | defaultJson => exact join_plain (by decide) (by decide)
  | machine serial =>
    have hrel : (ConfigFile.machine serial).rel = "machines" ++ "/" ++ (serial.1 ++ ".json") := by
      simp [ConfigFile.rel, ← String.toList_inj]
    rw [hrel, join_append_slash (by decide) (by decide),
      join_plain (plain_json _) (machine_not_mem_slash _ (by decide))]
    simp [ConfigFile.path]

theorem path_eq_cons (f : ConfigFile) : f.path = "config" :: f.path.tail := by
  cases f <;> rfl

/-- The admin writes where the file's path says. -/
theorem resolvePath_rel (f : ConfigFile) : resolvePath "config" f.rel = some f.path := by
  rw [resolvePath, if_pos (by decide), join_rel, List.nil_append, ← path_eq_cons]

/-- The api reads where the file's path says. -/
theorem join_config_rel (f : ConfigFile) : Path.join ["config"] f.rel = f.path := by
  rw [join_rel, List.singleton_append, ← path_eq_cons]

theorem path_injective : Function.Injective ConfigFile.path := by
  intro f g h
  cases f <;> cases g <;> simp_all [ConfigFile.path, Subtype.ext_iff]

/-- The extension keeps config files apart from staging files and sidecars. -/
theorem base_getLast (f : ConfigFile) : f.path.base.toList.getLast? = some 'n' := by
  cases f with
  | defaultJson => decide
  | machine serial => simp [ConfigFile.path, Path.base]

theorem path_ne_withExt {c : Char} (ext : String) (hext : ext.toList.getLast? = some c)
    (hc : c ≠ 'n') (f g : ConfigFile) : f.path ≠ g.path.withExt ext := by
  intro h
  -- a config file ends in the n of json, a companion in the last letter of its extension
  have hlast := base_getLast f
  have hne : ext.toList ≠ [] := by
    intro hnil
    simp [hnil] at hext
  rw [h, Path.withExt, Path.base, List.getLastD_concat, String.toList_append,
    List.getLast?_append_of_ne_nil _ hne, hext] at hlast
  exact hc (Option.some.inj hlast)

/-- A write changes the named file only. -/
theorem setTarget_path (t : Target) :
    d.setTarget f.path t g.path = if g = f then t.file else d g.path := by
  split_ifs with h
  · rw [h, Disk.setTarget_self]
  · exact Disk.setTarget_of_ne (path_injective.ne h) (path_ne_withExt _ rfl (by decide) g f)
      (path_ne_withExt _ rfl (by decide) g f)

theorem rel_named (f : ConfigFile) : ¬ (f.rel = "" ∨ f.rel.toList.getLast? = some '/') := by
  cases f with
  | defaultJson => decide
  | machine serial =>
    have hlast : (ConfigFile.machine serial).rel.toList.getLast? = some 'n' := by
      rw [ConfigFile.rel, String.toList_append, List.getLast?_append_of_ne_nil _ (by decide)]
      decide
    rintro (h | h)
    · simp [h] at hlast
    · simp [h] at hlast

/-! ## One request -/

namespace Admin

/-- The config a request carries. -/
def ConfigPut.config (put : ConfigPut) : Option Config :=
  (readBody put.body maxBody).bind fun raw => unmarshal (trimBOM raw)

theorem ConfigPut.shallow_config (put : ConfigPut) {cfg : Config} (h : put.config = some cfg) :
    cfg.Shallow := by
  obtain ⟨raw, -, hread⟩ := Option.bind_eq_some_iff.mp h
  exact shallow_of_unmarshal hread

variable {put : ConfigPut} {faults : Faults} {ivs : String → IV} {base : String} {body : Stream}
  {t t' : Target} {reply : Reply}

theorem putConfig_cases (h : putConfig P masterKey sha256 faults ivs base body t = (reply, t')) :
    (reply.status = 201 ∧ ∃ raw out, readBody body maxBody = some raw ∧
        encryptConfigJSON P masterKey ivs raw (t.file.getD []) = some out ∧ t'.file = some out) ∨
      (reply.status ≠ 201 ∧ t'.file = t.file) := by
  unfold putConfig at h
  split at h
  · obtain ⟨rfl, rfl⟩ := Prod.mk.inj h
    exact Or.inr ⟨by decide, rfl⟩
  next raw hraw =>
  split at h
  · obtain ⟨rfl, rfl⟩ := Prod.mk.inj h
    exact Or.inr ⟨by decide, rfl⟩
  next out hout =>
  split_ifs at h
  · obtain ⟨rfl, rfl⟩ := Prod.mk.inj h
    exact Or.inr ⟨by decide, rfl⟩
  split at h
  · -- a copy that failed was never renamed onto the file
    next hsave =>
    obtain ⟨rfl, rfl⟩ := Prod.mk.inj h
    rcases saveStream_cases hsave with ⟨⟨⟩, -, -⟩ | ⟨-, hfile, -⟩
    exact Or.inr ⟨by decide, hfile⟩
  · next hsave =>
    obtain ⟨rfl, rfl⟩ := Prod.mk.inj h
    rcases saveStream_cases hsave with ⟨-, -, rfl⟩ | ⟨⟨⟩, -, -⟩
    exact Or.inl ⟨rfl, raw, out, hraw, hout, by simp⟩

/-- What a request does to the config files: an accepted one stores the config it carries over
the previous file, a refused one does nothing. -/
theorem handle_file (P : Primitives) (masterKey : Option Key) (sha256 : Bytes → Digest)
    (put : ConfigPut) (d : Disk) (g : ConfigFile) :
    ((put.handle P masterKey sha256 d).1.status = 201 ∧ ∃ cfg, put.config = some cfg ∧
        (put.handle P masterKey sha256 d).2 g.path =
          if g = put.file then
            some (marshalIndent (storeConfig P masterKey put.ivs
              (prevUnattend ((d put.file.path).getD [])) cfg))
          else d g.path) ∨
      ((put.handle P masterKey sha256 d).1.status ≠ 201 ∧
        (put.handle P masterKey sha256 d).2 g.path = d g.path) := by
  rw [ConfigPut.handle, handleConfigPut, if_neg (rel_named _), resolvePath_rel]
  simp only [Disk.handle]
  obtain ⟨⟨reply, t'⟩, hput⟩ : ∃ r, putConfig P masterKey sha256 put.faults put.ivs
    put.file.path.base put.body (d.target put.file.path) = r := ⟨_, rfl⟩
  rw [hput, setTarget_path]
  rcases putConfig_cases hput with ⟨hstatus, raw, out, hraw, hout, hfile⟩ | ⟨hstatus, hfile⟩
  · obtain ⟨cfg, hcfg, rfl⟩ := encryptConfigJSON_eq_some.mp hout
    refine Or.inl ⟨hstatus, cfg, by rw [ConfigPut.config, hraw, Option.bind_some, hcfg], ?_⟩
    rw [hfile]
    rfl
  · refine Or.inr ⟨hstatus, ?_⟩
    split_ifs with h
    · rw [hfile, h]
      rfl
    · rfl

/-- A request to store a config, in one piece and without faults. -/
def ConfigPut.ofConfig (file : ConfigFile) (cfg : Config) (ivs : String → IV) : ConfigPut :=
  ⟨file, .ofBytes (marshalIndent cfg), ivs, Faults.none⟩

theorem ConfigPut.config_ofConfig {cfg : Config} (file : ConfigFile) (ivs : String → IV)
    (hcfg : cfg.Shallow) (h : (marshalIndent cfg).length ≤ maxBody) :
    (ConfigPut.ofConfig file cfg ivs).config = some cfg := by
  have hbody : readBody (.ofBytes (marshalIndent cfg)) maxBody = some (marshalIndent cfg) := by
    rw [readBody, Stream.readAll, if_pos ((Stream.ends_ofBytes _).limit _), Stream.bytes_limit,
      Stream.bytes_ofBytes, List.take_of_length_le h]
  rw [ConfigPut.config, ConfigPut.ofConfig, hbody, Option.bind_some, trimBOM_marshalIndent,
    unmarshal_marshalIndent hcfg]

/-- Without faults, every request that carries a config is accepted. -/
theorem handle_accepted (P : Primitives) (masterKey : Option Key) (sha256 : Bytes → Digest)
    {cfg : Config} (hfaults : put.faults = Faults.none)
    (hconfig : put.config = some cfg) (d : Disk) :
    (put.handle P masterKey sha256 d).1.status = 201 := by
  obtain ⟨raw, hraw, hcfg⟩ := Option.bind_eq_some_iff.mp hconfig
  -- the stored bytes are read from memory, so only a fault could stop the copy
  have hsave (b : Bytes) (t : Target) : saveStream Faults.none sha256 (.ofBytes b) t = _ :=
    saveStream_ok rfl rfl rfl (fun _ => rfl) (fun _ => rfl) (Stream.ends_ofBytes b)
  rw [ConfigPut.handle, handleConfigPut, if_neg (rel_named _), resolvePath_rel, hfaults]
  simp only [Disk.handle, putConfig, hraw, encryptConfigJSON, hcfg, Option.map_some, hsave]
  rfl

/-- The disk after one request that carries a config and meets no fault. -/
theorem runPuts_ofConfig {cfg : Config} (file : ConfigFile) (hcfg : cfg.Shallow)
    (h : (marshalIndent cfg).length ≤ maxBody) :
    runPuts P masterKey sha256 [ConfigPut.ofConfig file cfg ivs] d file.path =
      some (marshalIndent (storeConfig P masterKey ivs
        (prevUnattend ((d file.path).getD [])) cfg)) := by
  have hconfig := ConfigPut.config_ofConfig file ivs hcfg h
  have haccepted := handle_accepted P masterKey sha256 rfl hconfig d
  rcases handle_file P masterKey sha256
    (ConfigPut.ofConfig file cfg ivs) d file with ⟨-, cfg', hcfg', hfile⟩ | ⟨hstatus, -⟩
  · rw [hconfig, Option.some.injEq] at hcfg'
    subst hcfg'
    exact hfile.trans (if_pos rfl)
  · exact absurd haccepted hstatus

end Admin

/-! ## Reading back -/

namespace Api

theorem readConfigFile_rel (f : ConfigFile) {cfg : Option Config}
    (hcfg : ∀ c, cfg = some c → c.Shallow) (h : d f.path = cfg.map marshalIndent) :
    readConfigFile (Tree.ofDisk d) f.rel = .ok cfg := by
  rw [readConfigFile, join_config_rel, Tree.ofDisk, h]
  cases cfg with
  | none => rfl
  | some cfg =>
    simp only [Option.map_some, trimBOM_marshalIndent, unmarshal_marshalIndent (hcfg cfg rfl)]

end Api

end WinDep
