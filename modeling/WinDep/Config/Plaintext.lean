/-
# The plaintext store

What the two programs implement together is a store of plaintext configs. A
request puts a config: a blank secret is dropped, the sentinel takes the previous
plaintext, anything else is kept as typed. Resolving a machine merges the
default and the machine's config.

The encrypted store refines it. Opening every stored file gives the plaintext
file, and every secret stored is a non-empty string, so the sentinel carries over
exactly what the plaintext store carries over.
-/

import WinDep.Config.Served
import WinDep.Config.SecretsAtRest

namespace WinDep

open Json Envelope

/-- The plaintext config of each file that was put. -/
abbrev PlainStore := ConfigFile → Option Config

namespace PlainStore

def empty : PlainStore := fun _ => none

/-- The member kept for a member of a config that is put over `prev`. -/
def putMember (prev : Object) (k : String) (v : Json) : Option Json :=
  if Admin.isSecretField k then
    match v with
    | .str s =>
      -- the sentinel takes the previous plaintext, and nothing if there is none
      if s = "" then none else if s = Admin.keepSentinel then prev.lookup k else some (.str s)
    | _ => some v
  else some v

theorem canonical_putMember (prev : Object) (k : String) (v w : Json) (hv : Canonical v)
    (h : putMember prev k v = some w) : Canonical w := by
  unfold putMember at h
  split_ifs at h
  · split at h
    · split_ifs at h
      · exact Object.canonical_lookup h
      · exact Option.some.inj h ▸ hv
    · exact Option.some.inj h ▸ hv
  · exact Option.some.inj h ▸ hv

def putUnattend (prev un : Object) : Object :=
  un.mapMaybe (putMember prev) (canonical_putMember prev)

/-- The plaintext config of a file after `cfg` is put over `prev`. -/
def putConfig (prev : Object) (cfg : Config) : Config :=
  match cfg.unattend with
  | some un => some (cfg.object.setObject "unattend" (putUnattend prev un))
  | none => cfg

/-- The previous block of a file, empty if there is none. -/
def unattend (s : PlainStore) (f : ConfigFile) : Object :=
  ((s f).bind Config.unattend).getD Object.empty

def put (s : PlainStore) (f : ConfigFile) (cfg : Config) : PlainStore :=
  Function.update s f (some (putConfig (s.unattend f) cfg))

/-- The config a machine gets, nothing if its file was never put. -/
def resolve (s : PlainStore) (serial : Serial) : Option Object :=
  (s (.machine serial)).map (Api.mergeConfig (s .defaultJson).join)

end PlainStore

namespace Admin

open Api

variable (P : Primitives) (masterKey : Option Key) (sha256 : Bytes → Digest)

/-- The plaintext store after the accepted requests of a run. -/
def plainPuts : List ConfigPut → Disk → PlainStore → PlainStore
  | [], _, s => s
  | put :: puts, d, s =>
    plainPuts puts (put.handle P masterKey sha256 d).2
      (if (put.handle P masterKey sha256 d).1.status = 201 then
        (put.config.elim s (s.put put.file))
      else s)

/-- Some accepted request of the run puts the file. -/
def WasPut (f : ConfigFile) : List ConfigPut → Disk → Prop
  | [], _ => False
  | put :: puts, d =>
    (put.file = f ∧ (put.handle P masterKey sha256 d).1.status = 201) ∨
      WasPut f puts (put.handle P masterKey sha256 d).2

/-- The body is a JSON object, and its unattend block, if there is one, is an object of strings
that do not begin like an envelope. -/
structure PlainBody (cfg : Config) : Prop where
  isObject : cfg.isSome = true
  block : ∀ v, cfg.object.lookup "unattend" = some v → ∃ un : Object, v = un.toJson ∧
    ∀ k w, un.lookup k = some w → ∃ s, w = .str s ∧ isEncrypted (toBytes s) = false

/-- An accepted request carries a plain body. -/
def PutPlain (put : ConfigPut) (d : Disk) : Prop :=
  (put.handle P masterKey sha256 d).1.status = 201 →
    ∀ cfg, put.config = some cfg → PlainBody cfg

variable {P masterKey sha256} {key : Key} {ivs : String → IV} {prevUn prev un : Object}
  {cfg : Config} {d : Disk} {s : PlainStore} {put : ConfigPut} {k incoming : String} {v w : Json}

theorem PlainBody.strings (h : PlainBody cfg) (hun : cfg.unattend = some un)
    (hv : un.lookup k = some v) : ∃ s, v = .str s ∧ isEncrypted (toBytes s) = false := by
  rw [Config.unattend, Object.object?_eq_some] at hun
  obtain ⟨un', hun', hstrings⟩ := h.block _ hun
  obtain rfl := Object.toJson_injective hun'
  exact hstrings k v hv

theorem PlainBody.opens (h : PlainBody cfg) : ConfigOpens P masterKey cfg := by
  intro un hun k v hv
  obtain ⟨s, rfl, hs⟩ := h.strings hun hv
  exact ⟨_, decryptMember_plain hs⟩

/-- Every secret member of the block is a non-empty string. -/
def SecretStrings (un : Object) : Prop :=
  ∀ k v, un.lookup k = some v → isSecretField k = true → ∃ s, v = .str s ∧ s ≠ ""

theorem storeUnattend_secretStrings :
    SecretStrings (storeUnattend P masterKey ivs prevUn un) := by
  intro k v hv hk
  rw [lookup_storeUnattend, Option.bind_eq_some_iff] at hv
  obtain ⟨_, -, hv⟩ := hv
  obtain ⟨s, rfl, hne, -⟩ := (storeMember_secret hk).mp hv
  exact ⟨s, rfl, hne⟩

/-- **One member.** Opening what is stored for a plaintext member gives what the plaintext
store keeps for it. -/
theorem openStored_member (hstrings : SecretStrings prevUn)
    (hincoming : isEncrypted (toBytes incoming) = false) :
    (storeMember P (some key) ivs prevUn k (.str incoming)).bind
        (fun v => (decryptMember P (some key) v).toOption) =
      PlainStore.putMember (openMembers P (some key) prevUn) k (.str incoming) := by
  cases hsecret : isSecretField k with
  | false =>
    rw [storeMember_of_not_secret hsecret, Option.bind_some, decryptMember_plain hincoming]
    simp [PlainStore.putMember, hsecret, Except.toOption]
  | true =>
    have hstore (stored : String)
        (h : resolveSecret P (some key) (ivs k) incoming (prevUn.lookup k) = stored) :
        storeMember P (some key) ivs prevUn k (.str incoming) =
          if stored = "" then none else some (.str stored) := by
      subst h
      rw [storeMember, if_pos hsecret]
      rfl
    simp only [PlainStore.putMember, hsecret, if_true, lookup_openMembers]
    by_cases hempty : incoming = ""
    · -- blank: dropped on both sides
      rw [hstore "" (by simp [resolveSecret, hempty, keepSentinel])]
      simp [hempty]
    by_cases hkeep : incoming = keepSentinel
    · -- kept: the previous value is absent, or a non-empty string
      rw [hstore _ (by rw [resolveSecret, if_pos hkeep]), if_neg hempty, if_pos hkeep]
      cases hprev : prevUn.lookup k with
      | none => simp
      | some v =>
        obtain ⟨s, rfl, hs⟩ := hstrings k v hprev hsecret
        simp [hs]
    · -- typed: sealed just now, and opened again
      rw [hstore _ (resolveSecret_fresh hkeep hempty hincoming _), if_neg hempty, if_neg hkeep,
        if_neg (sealed_envelope (mt toBytes_eq_nil.mp hempty)).ne_empty, Option.bind_some,
        decryptMember_envelope]
      rfl

theorem openConfig_storeConfig (hstrings : SecretStrings prevUn) (hcfg : PlainBody cfg) :
    openConfig P (some key) (storeConfig P (some key) ivs prevUn cfg) =
      PlainStore.putConfig (openMembers P (some key) prevUn) cfg := by
  cases hun : cfg.unattend with
  | none =>
    simp only [storeConfig, PlainStore.putConfig, hun]
    exact openConfig_of_unattend_none hun
  | some un =>
    have hblock : openMembers P (some key) (storeUnattend P (some key) ivs prevUn un) =
        PlainStore.putUnattend (openMembers P (some key) prevUn) un := by
      ext1 j
      rw [lookup_openMembers, lookup_storeUnattend, PlainStore.putUnattend,
        Object.lookup_mapMaybe]
      cases hv : un.lookup j with
      | none => rfl
      | some v =>
        obtain ⟨s, rfl, hs⟩ := hcfg.strings hun hv
        exact openStored_member hstrings hs
    simp only [storeConfig, PlainStore.putConfig, hun, openConfig, unattend_setObject, hblock]
    apply congrArg some
    ext1 k
    simp only [Config.object, Option.getD_some, Object.lookup_setObject]
    split_ifs <;> rfl

/-! ## The refinement -/

/-- Every file is absent in both stores, or was stored by the admin with non-empty secrets
and opens to the plaintext file. -/
structure Refines (P : Primitives) (key : Key) (d : Disk) (s : PlainStore) : Prop where
  opens : StoreOpens P key d
  file : ∀ f : ConfigFile, ∃ cfg : Option Config, d f.path = cfg.map marshalIndent ∧
    s f = cfg.map (openConfig P (some key)) ∧
      ∀ c un, cfg = some c → c.unattend = some un → SecretStrings un

theorem refines_empty : Refines P key Disk.empty PlainStore.empty :=
  ⟨storeOpens_empty, fun _ => ⟨none, rfl, rfl, by simp⟩⟩

theorem Refines.shallow (h : Refines P key d s) {f : ConfigFile} {c : Config}
    (hd : d f.path = some (marshalIndent c)) : c.Shallow := by
  obtain ⟨cfg, hcfg, hopens⟩ := h.opens f
  obtain rfl : some c = cfg := Option.map_injective marshalIndent_injective (hd.symm.trans hcfg)
  exact (hopens c rfl).1

/-- The previous block a request reads, seen in both stores. -/
theorem Refines.prevUnattend (h : Refines P key d s) (f : ConfigFile) :
    SecretStrings (prevUnattend ((d f.path).getD [])) ∧
      openMembers P (some key) (prevUnattend ((d f.path).getD [])) = s.unattend f := by
  obtain ⟨cfg, hd, hs, hstrings⟩ := h.file f
  rw [hd, PlainStore.unattend, hs]
  cases cfg with
  | none =>
    refine ⟨?_, openMembers_empty⟩
    rintro k v ⟨⟩
  | some c =>
    rw [Option.map_some, Option.getD_some, prevUnattend_marshalIndent (h.shallow hd),
      Option.map_some, Option.bind_some, getD_unattend_openConfig]
    refine ⟨?_, rfl⟩
    cases hun : c.unattend with
    | none => rintro k v ⟨⟩
    | some un => exact hstrings c un rfl hun

/-- **Step.** A request with a plain body keeps the refinement. -/
theorem Refines.handle (h : Refines P key d s) (hput : PutPlain P (some key) sha256 put d) :
    Refines P key (put.handle P (some key) sha256 d).2
      (if (put.handle P (some key) sha256 d).1.status = 201 then
        (put.config.elim s (s.put put.file))
      else s) := by
  have hopens : PutOpens P key sha256 put d := fun hstatus cfg hcfg => (hput hstatus cfg hcfg).opens
  refine ⟨h.opens.handle hopens, fun g => ?_⟩
  rcases handle_file P (some key) sha256 put d g with ⟨hstatus, cfg, hcfg, hfile⟩ | ⟨hstatus, hfile⟩
  · rw [hfile, if_pos hstatus, hcfg, Option.elim_some, PlainStore.put]
    obtain ⟨hstrings, hprev⟩ := h.prevUnattend put.file
    split_ifs with hg
    · -- the file that was put, over the previous block both stores agree on
      subst hg
      refine ⟨some _, rfl, ?_, ?_⟩
      · rw [Function.update_self, Option.map_some,
          openConfig_storeConfig hstrings (hput hstatus cfg hcfg), hprev]
      · rintro c un ⟨⟩ hun
        rw [unattend_storeConfig, Option.map_eq_some_iff] at hun
        obtain ⟨un, -, rfl⟩ := hun
        exact storeUnattend_secretStrings
    · rw [Function.update_of_ne hg]
      exact h.file g
  · rw [hfile, if_neg hstatus]
    exact h.file g

theorem Refines.runPuts {puts : List ConfigPut} (h : Refines P key d s)
    (hputs : EachPut P (some key) sha256 (PutPlain P (some key) sha256) puts d) :
    Refines P key (runPuts P (some key) sha256 puts d)
      (plainPuts P (some key) sha256 puts d s) := by
  induction puts generalizing d s with
  | nil => exact h
  | cons put puts ih => exact ih (h.handle hputs.1) hputs.2

theorem Refines.resolveConfig (h : Refines P key d s) (serial : Serial) :
    Api.resolveConfig P (some key) (Tree.ofDisk d) serial.1 = .ok (s.resolve serial) := by
  obtain ⟨per, hper, hsPer, -⟩ := h.file (.machine serial)
  obtain ⟨base, hbase, hsBase, -⟩ := h.file .defaultJson
  obtain ⟨base', hbase', hresolve⟩ := h.opens.resolveConfig serial hper
  -- the file determines the config it was stored from
  obtain rfl : base = base' :=
    Option.map_injective marshalIndent_injective (hbase.symm.trans hbase')
  have hdefault : (s .defaultJson).join = openConfig P (some key) base.join := by
    rw [hsBase]
    cases base with
    | none => rfl
    | some base => rfl
  rw [hresolve, PlainStore.resolve, hsPer, hdefault, Option.map_map]
  rfl

/-- The plaintext store holds the files that were put. -/
theorem plainPuts_eq_none {puts : List ConfigPut} {f : ConfigFile} :
    plainPuts P masterKey sha256 puts d s f = none ↔
      s f = none ∧ ¬ WasPut P masterKey sha256 f puts d := by
  induction puts generalizing d s with
  | nil => simp [plainPuts, WasPut]
  | cons put puts ih =>
    rw [plainPuts, ih, WasPut, not_or]
    rcases handle_file P masterKey sha256 put d put.file with ⟨hstatus, cfg, hcfg, -⟩ | ⟨hstatus, -⟩
    · rw [if_pos hstatus, hcfg, Option.elim_some, PlainStore.put, Function.update_apply]
      by_cases hf : f = put.file
      · simp [hf, hstatus]
      · simp [hf, Ne.symm hf]
    · simp [hstatus]

/-- **Refinement.** After any run of requests with plain bodies, resolving a machine gives what
the plaintext store gives: nothing exactly when its file was never put. -/
theorem resolveConfig_runPuts (P : Primitives) (key : Key) (sha256 : Bytes → Digest)
    (puts : List ConfigPut)
    (hputs : EachPut P (some key) sha256 (PutPlain P (some key) sha256) puts Disk.empty)
    (serial : Serial) :
    Api.resolveConfig P (some key) (Tree.ofDisk (runPuts P (some key) sha256 puts Disk.empty))
        serial.1 =
      .ok ((plainPuts P (some key) sha256 puts Disk.empty PlainStore.empty).resolve serial) ∧
    (Api.resolveConfig P (some key) (Tree.ofDisk (runPuts P (some key) sha256 puts Disk.empty))
        serial.1 = .ok none ↔
      ¬ WasPut P (some key) sha256 (.machine serial) puts Disk.empty) := by
  have hresolve := (refines_empty.runPuts hputs).resolveConfig serial
  refine ⟨hresolve, ?_⟩
  rw [hresolve, Except.ok.injEq, PlainStore.resolve, Option.map_eq_none_iff, plainPuts_eq_none]
  exact and_iff_right rfl

theorem plainBody_oneMember {name value : String} (h : isEncrypted (toBytes value) = false) :
    PlainBody (Config.oneMember name value) := by
  refine ⟨rfl, fun v hv => ?_⟩
  have hun := Config.unattend_oneMember name value
  rw [Config.unattend, Object.object?_eq_some, hv, Option.some.injEq] at hun
  refine ⟨_, hun, fun k w hw => ?_⟩
  exact ⟨value, (Config.lookup_oneMember_eq_some hw).2, h⟩

theorem putPlain_oneMember {file : ConfigFile} {name value : String}
    (hlen : (marshalIndent (Config.oneMember name value)).length ≤ maxBody)
    (h : isEncrypted (toBytes value) = false) :
    PutPlain P masterKey sha256 (.ofConfig file (Config.oneMember name value) ivs) d := by
  intro _ cfg hcfg
  rw [ConfigPut.config_ofConfig _ _ (Config.shallow_oneMember _ _) hlen, Option.some.injEq] at hcfg
  exact hcfg ▸ plainBody_oneMember h

/-- A default, and a machine with a password that is typed and then kept. -/
def plainRun : List ConfigPut := [
  .ofConfig .defaultJson (Config.oneMember "TIMEZONE" "UTC") sampleIVs,
  samplePut "LOCALADMINPASS" "hunter2" sampleIVs,
  samplePut "LOCALADMINPASS" "__KEEP__" sampleIVs]

theorem resolveConfig_runPuts_sample :
    Api.resolveConfig default (some sampleKey) (Tree.ofDisk
        (runPuts default (some sampleKey) sampleDigest plainRun Disk.empty)) sampleSerial.1 =
      .ok ((plainPuts default (some sampleKey) sampleDigest plainRun Disk.empty
        PlainStore.empty).resolve sampleSerial) ∧
    (Api.resolveConfig default (some sampleKey) (Tree.ofDisk
        (runPuts default (some sampleKey) sampleDigest plainRun Disk.empty)) sampleSerial.1 =
          .ok none ↔
      ¬ WasPut default (some sampleKey) sampleDigest (.machine sampleSerial) plainRun
        Disk.empty) :=
  resolveConfig_runPuts default sampleKey sampleDigest plainRun
    ⟨putPlain_oneMember (by decide) (by decide), putPlain_oneMember (by decide) (by decide),
      putPlain_oneMember (by decide) (by decide), trivial⟩ sampleSerial

end Admin

end WinDep
