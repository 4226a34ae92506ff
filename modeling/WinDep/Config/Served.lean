/-
# Every enrolled machine is served

The admin decides what to seal by the name of a member, the api decides what to
open by the prefix of its value. The two agree on every config whose values that
begin like envelopes are envelopes: storing such a config keeps every stored
block openable, and then no resolution fails. Nothing checks the condition when
a config is stored, so one bad value breaks the machine, or the whole fleet.
-/

import WinDep.Config.Store

namespace WinDep

open Json Envelope

namespace Api

variable {P : Primitives} {key : Key} {masterKey : Option Key} {iv : IV} {s : String}

theorem decryptMember_plain (h : isEncrypted (toBytes s) = false) :
    decryptMember P masterKey (.str s) = .ok (.str s) := by
  simp [decryptMember, h]

theorem decryptMember_envelope :
    decryptMember P (some key) (.str (ofBytes (envelope P key iv (toBytes s)))) =
      .ok (.str s) := by
  simp [decryptMember, toBytes_ofBytes_envelope, isEncrypted_envelope, decryptSecret,
    openEnvelope_envelope, Except.map]

end Api

namespace Admin

open Api

variable {P : Primitives} {key : Key} {masterKey : Option Key} {sha256 : Bytes → Digest}
  {ivs : String → IV} {iv : IV} {prevUn un : Object} {cfg : Config} {d : Disk} {put : ConfigPut}
  {k incoming : String} {v w : Json}

/-- A resolved secret opens if the value it keeps and the value it stores unchanged do. -/
theorem resolveSecret_opens {prev : Option Json}
    (hprev : ∀ v, prev = some v → ∃ w, decryptMember P (some key) v = .ok w)
    (hincoming : ∃ w, decryptMember P (some key) (.str incoming) = .ok w) :
    ∃ w, decryptMember P (some key) (.str (resolveSecret P (some key) iv incoming prev)) =
      .ok w := by
  by_cases hkeep : incoming = keepSentinel
  · rw [resolveSecret, if_pos hkeep]
    cases hstr : prev.bind str? with
    | none => exact ⟨_, decryptMember_plain (by decide)⟩
    | some s =>
      obtain ⟨v, hv, hs⟩ := Option.bind_eq_some_iff.mp hstr
      exact hprev _ (by rw [hv, str?_eq_some.mp hs, Option.getD_some])
  by_cases hempty : incoming = ""
  · rw [resolveSecret, if_neg hkeep, if_pos hempty]
    exact ⟨_, decryptMember_plain (by decide)⟩
  by_cases hsealed : isEncrypted (toBytes incoming) = true
  · rwa [resolveSecret_sealed hkeep hsealed]
  · rw [resolveSecret_fresh hkeep hempty (by simpa using hsealed)]
    exact ⟨_, decryptMember_envelope⟩

/-- Storing a block that opens over a block that opens gives a block that opens. -/
theorem storeUnattend_openable (hprev : Openable P (some key) prevUn)
    (hun : Openable P (some key) un) :
    Openable P (some key) (storeUnattend P (some key) ivs prevUn un) := by
  intro k w hw
  rw [lookup_storeUnattend, Option.bind_eq_some_iff] at hw
  obtain ⟨v, hv, hw⟩ := hw
  cases hsecret : isSecretField k with
  | false =>
    rw [storeMember_of_not_secret hsecret, Option.some.injEq] at hw
    exact hw ▸ hun k v hv
  | true =>
    obtain ⟨s, rfl, -, rfl⟩ := (storeMember_secret hsecret).mp hw
    -- a secret that is no string is resolved as a blank one
    refine resolveSecret_opens (fun v => hprev k v) ?_
    cases hstr : v.str? with
    | none => exact ⟨_, decryptMember_plain (by decide)⟩
    | some s =>
      rw [str?_eq_some.mp hstr] at hv
      exact hun k _ hv

theorem storeConfig_opens (hprev : Openable P (some key) prevUn)
    (hcfg : ConfigOpens P (some key) cfg) :
    ConfigOpens P (some key) (storeConfig P (some key) ivs prevUn cfg) := by
  intro un hun
  rw [unattend_storeConfig, Option.map_eq_some_iff] at hun
  obtain ⟨un, hcfgUn, rfl⟩ := hun
  exact storeUnattend_openable hprev (hcfg un hcfgUn)

/-! ## Runs -/

/-- Every config file that exists was stored by the admin and opens. -/
def StoreOpens (P : Primitives) (key : Key) (d : Disk) : Prop :=
  ∀ f : ConfigFile, ∃ cfg : Option Config, d f.path = cfg.map marshalIndent ∧
    ∀ c, cfg = some c → c.Shallow ∧ ConfigOpens P (some key) c

/-- If the request is accepted, the values of its config that begin like envelopes open. -/
def PutOpens (P : Primitives) (key : Key) (sha256 : Bytes → Digest) (put : ConfigPut)
    (d : Disk) : Prop :=
  (put.handle P (some key) sha256 d).1.status = 201 →
    ∀ cfg, put.config = some cfg → ConfigOpens P (some key) cfg

/-- The condition holds at every request of the run. -/
def EachPut (P : Primitives) (masterKey : Option Key) (sha256 : Bytes → Digest)
    (C : ConfigPut → Disk → Prop) : List ConfigPut → Disk → Prop
  | [], _ => True
  | put :: puts, d =>
    C put d ∧ EachPut P masterKey sha256 C puts (put.handle P masterKey sha256 d).2

theorem storeOpens_empty : StoreOpens P key Disk.empty :=
  fun _ => ⟨none, rfl, by simp⟩

/-- The previous block a request reads opens. -/
theorem StoreOpens.prevUnattend (h : StoreOpens P key d) (f : ConfigFile) :
    Openable P (some key) (prevUnattend ((d f.path).getD [])) := by
  obtain ⟨cfg, hfile, hopens⟩ := h f
  cases cfg with
  | none => simpa [hfile, Admin.prevUnattend] using openable_empty
  | some cfg =>
    rw [hfile, Option.map_some, Option.getD_some,
      prevUnattend_marshalIndent (hopens cfg rfl).1]
    exact (hopens cfg rfl).2.getD

theorem StoreOpens.handle (h : StoreOpens P key d) (hput : PutOpens P key sha256 put d) :
    StoreOpens P key (put.handle P (some key) sha256 d).2 := by
  intro g
  rcases handle_file P (some key) sha256 put d g with ⟨hstatus, cfg, hcfg, hfile⟩ | ⟨-, hfile⟩
  · rw [hfile]
    split_ifs with hg
    · -- the file that was put: its previous block opens by the invariant
      refine ⟨some _, rfl, ?_⟩
      rintro _ ⟨⟩
      exact ⟨shallow_storeConfig (put.shallow_config hcfg),
        storeConfig_opens (h.prevUnattend put.file) (hput hstatus cfg hcfg)⟩
    · exact h g
  · rw [hfile]
    exact h g

theorem StoreOpens.runPuts {puts : List ConfigPut} (h : StoreOpens P key d)
    (hputs : EachPut P (some key) sha256 (PutOpens P key sha256) puts d) :
    StoreOpens P key (runPuts P (some key) sha256 puts d) := by
  induction puts generalizing d with
  | nil => exact h
  | cons put puts ih => exact ih (h.handle hputs.1) hputs.2

/-- Resolution over a store that opens merges the opened files. -/
theorem StoreOpens.resolveConfig (h : StoreOpens P key d) (serial : Serial)
    {per : Option Config}
    (hper : d (ConfigFile.machine serial).path = per.map marshalIndent) :
    ∃ base : Option Config, d ConfigFile.defaultJson.path = base.map marshalIndent ∧
      resolveConfig P (some key) (Tree.ofDisk d) serial.1 =
        .ok (per.map fun per =>
          mergeConfig (openConfig P (some key) base.join) (openConfig P (some key) per)) := by
  obtain ⟨base, hbase, hbaseOpens⟩ := h .defaultJson
  refine ⟨base, hbase, ?_⟩
  have hperOpens : ∀ c, per = some c → c.Shallow ∧ ConfigOpens P (some key) c := by
    obtain ⟨cfg, hcfg, hopens⟩ := h (.machine serial)
    obtain rfl := Option.map_injective marshalIndent_injective (hper.symm.trans hcfg)
    exact hopens
  have hreadPer : readConfigFile _ ("machines/" ++ serial.1 ++ ".json") = _ :=
    readConfigFile_rel (.machine serial) (fun c hc => (hperOpens c hc).1) hper
  have hreadBase : readConfigFile _ "default.json" = _ :=
    readConfigFile_rel .defaultJson (fun c hc => (hbaseOpens c hc).1) hbase
  -- a machine without a file is not enrolled, whatever the default is
  rw [Api.resolveConfig, hreadPer]
  cases per with
  | none => rfl
  | some per =>
    have hbaseOpens' : ConfigOpens P (some key) base.join := by
      cases base with
      | none =>
        intro un hun
        simp [Config.unattend, Config.object, Object.object?_eq_some] at hun
      | some base => exact (hbaseOpens base rfl).2
    simp only [hreadBase, decryptUnattend_mergeConfig hbaseOpens' (hperOpens per rfl).2,
      Option.map_some]
    rfl

/-- Conversely, a machine that is served has a file that opens. -/
theorem configOpens_of_resolveConfig {d : Disk} (serial : Serial) {per : Config} {o : Object}
    (hshallow : per.Shallow)
    (hper : d (ConfigFile.machine serial).path = some (marshalIndent per))
    (h : Api.resolveConfig P (some key) (Tree.ofDisk d) serial.1 = .ok (some o)) :
    ConfigOpens P (some key) per := by
  have hread : readConfigFile (Tree.ofDisk d) ("machines/" ++ serial.1 ++ ".json") =
      .ok (some per) :=
    @readConfigFile_rel d (.machine serial) (some per)
      (fun c hc => Option.some.inj hc ▸ hshallow) hper
  rw [Api.resolveConfig, hread] at h
  cases hbase : readConfigFile (Tree.ofDisk d) "default.json" with
  | error e => simp [hbase] at h
  | ok base =>
    cases hmerged : decryptUnattend P (some key) (mergeConfig base.join per) with
    | error e => simp [hbase, hmerged, Except.map] at h
    | ok merged => exact configOpens_of_decryptUnattend hmerged

/-- **Every enrolled machine is served.** In a run whose accepted configs open, every machine
with a config file is resolved. -/
theorem runPuts_resolveConfig (P : Primitives) (key : Key) (sha256 : Bytes → Digest)
    (puts : List ConfigPut)
    (hputs : EachPut P (some key) sha256 (PutOpens P key sha256) puts Disk.empty)
    (serial : Serial)
    (henrolled : (runPuts P (some key) sha256 puts Disk.empty
      (ConfigFile.machine serial).path).isSome = true) :
    ∃ cfg, resolveConfig P (some key)
      (Tree.ofDisk (runPuts P (some key) sha256 puts Disk.empty)) serial.1 = .ok (some cfg) := by
  have hopens := storeOpens_empty.runPuts hputs
  obtain ⟨per, hper, -⟩ := hopens (.machine serial)
  obtain ⟨base, -, hresolve⟩ := hopens.resolveConfig serial hper
  rw [hper, Option.isSome_map] at henrolled
  obtain ⟨per, rfl⟩ := Option.isSome_iff_exists.mp henrolled
  exact ⟨_, hresolve⟩

/-! ## A run that is served and one that is not -/

def sampleSerial : Serial := ⟨"5CG1234XYZ", by decide⟩

/-- A request to set one string of the answer file of the sample machine. -/
def samplePut (name value : String) (ivs : String → IV) : ConfigPut :=
  .ofConfig (.machine sampleSerial) (Config.oneMember name value) ivs

theorem configOpens_oneMember {name value : String}
    (h : ∃ w, decryptMember P masterKey (.str value) = .ok w) :
    ConfigOpens P masterKey (Config.oneMember name value) := by
  intro un hun k v hv
  rw [Config.unattend_oneMember, Option.some.injEq] at hun
  subst hun
  obtain ⟨-, rfl⟩ := Config.lookup_oneMember_eq_some hv
  exact h

theorem putOpens_oneMember {file : ConfigFile} {name value : String}
    (hlen : (marshalIndent (Config.oneMember name value)).length ≤ maxBody)
    (h : ∃ w, decryptMember P (some key) (.str value) = .ok w) :
    PutOpens P key sha256 (.ofConfig file (Config.oneMember name value) ivs) d := by
  intro _ cfg hcfg
  rw [ConfigPut.config_ofConfig _ _ (Config.shallow_oneMember _ _) hlen, Option.some.injEq] at hcfg
  exact hcfg ▸ configOpens_oneMember h

/-- A password that is sealed already. -/
def sampleSealed : String :=
  "enc:v1:AAAAAAAAAAAAAAAAAAAAAGh1bnRlcjIJCQkJCQkJCQkAAAAAAAAAAAAAAAAAAAAAAAAAAAAAAAAAAAAAAAAAAA=="

theorem sampleSealed_eq :
    sampleSealed = ofBytes (envelope default sampleKey (sampleIVs "") (toBytes "hunter2")) := by
  decide +kernel

/-- A default with a password that is sealed already, and a machine with one that is typed. -/
def typedRun : List ConfigPut := [
  .ofConfig .defaultJson (Config.oneMember "DOMAINPASS" sampleSealed) sampleIVs,
  samplePut "LOCALADMINPASS" "letmein" sampleIVs]

/-- The password of the machine is kept. -/
def keptPut : ConfigPut := samplePut "LOCALADMINPASS" "__KEEP__" sampleIVs

theorem runPuts_resolveConfig_sample :
    isEncrypted (toBytes sampleSealed) = true ∧
      ∃ cfg, resolveConfig default (some sampleKey) (Tree.ofDisk
        (runPuts default (some sampleKey) sampleDigest (typedRun ++ [keptPut]) Disk.empty))
          sampleSerial.1 = .ok (some cfg) := by
  refine ⟨by decide, ?_⟩
  have hputs : EachPut default (some sampleKey) sampleDigest
      (PutOpens default sampleKey sampleDigest) (typedRun ++ [keptPut]) Disk.empty := by
    have hsealed : decryptMember default (some sampleKey) (.str sampleSealed) =
        .ok (.str "hunter2") := by rw [sampleSealed_eq, decryptMember_envelope]
    refine ⟨?_, ?_, ?_, trivial⟩
    · exact putOpens_oneMember (by decide +kernel) ⟨_, hsealed⟩
    · exact putOpens_oneMember (by decide) ⟨_, decryptMember_plain (by decide)⟩
    · exact putOpens_oneMember (by decide) ⟨_, decryptMember_plain (by decide)⟩
  refine runPuts_resolveConfig default sampleKey sampleDigest _ hputs sampleSerial ?_
  rw [runPuts_concat, keptPut, samplePut,
    runPuts_ofConfig _ (Config.shallow_oneMember _ _) (by decide)]
  rfl

theorem decryptMember_prefix (v : Json) :
    decryptMember P (some key) (.str "enc:v1:") ≠ .ok v := by
  have hopen : Api.decryptSecret P (some key) (toBytes "enc:v1:") =
      .error .ciphertextTooShort := rfl
  rw [decryptMember, if_pos (by decide), hopen]
  rintro ⟨⟩

/-- A time zone that begins like an envelope is stored, and its machine is never served. -/
theorem prefixed_timezone_not_served :
    ¬ ∃ (P : Primitives) (key : Key) (sha256 : Bytes → Digest) (ivs : String → IV),
      (runPuts P (some key) sha256 [samplePut "TIMEZONE" "enc:v1:" ivs] Disk.empty
        (ConfigFile.machine sampleSerial).path).isSome = true →
      ∃ cfg, resolveConfig P (some key) (Tree.ofDisk
        (runPuts P (some key) sha256 [samplePut "TIMEZONE" "enc:v1:" ivs] Disk.empty))
        sampleSerial.1 = .ok (some cfg) := by
  rintro ⟨P, key, sha256, ivs, h⟩
  have hshallow := Config.shallow_oneMember "TIMEZONE" "enc:v1:"
  have hlen : (marshalIndent (Config.oneMember "TIMEZONE" "enc:v1:")).length ≤ maxBody := by decide
  have hfile : runPuts P (some key) sha256 [samplePut "TIMEZONE" "enc:v1:" ivs] Disk.empty
      (ConfigFile.machine sampleSerial).path = _ :=
    runPuts_ofConfig (.machine sampleSerial) hshallow hlen
  -- were the machine served, its stored file would open
  obtain ⟨o, ho⟩ := h (by rw [hfile]; rfl)
  have hopens := configOpens_of_resolveConfig sampleSerial (shallow_storeConfig hshallow) hfile ho
  obtain ⟨w, hw⟩ := hopens _ (by rw [unattend_storeConfig, Config.unattend_oneMember]; rfl)
    "TIMEZONE" (.str "enc:v1:") (by
      rw [lookup_storeUnattend, Config.lookup_oneMember, Option.bind_some,
        storeMember_of_not_secret (by decide)])
  exact decryptMember_prefix w hw

end Admin

end WinDep
