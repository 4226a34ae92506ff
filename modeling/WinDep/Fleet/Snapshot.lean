/-
# The snapshot of the api

Each pod keeps the last report of a bounded number of machines. A machine that
reports for the first time when the map is full takes the place of one that
reported longest ago; which one, among equals, is up to the order in which the
map is visited.
-/

import WinDep.Data.Bounded
import WinDep.Data.Runs
import WinDep.Fleet.Report

namespace WinDep.Fleet

open Bounded Latest Runs

/-- `machineState` -/
structure MachineState where
  report : StatusReport
  /-- the time of the report -/
  updated : ℤ

abbrev Machines := KeyedMap String MachineState

def maxMachines : ℕ := 2048

/-- The variables of the eviction loop. -/
structure Oldest where
  oldestKey : String
  oldest : ℤ
  first : Bool

/-- The body of the eviction loop. -/
def Oldest.visit (o : Oldest) (p : String × MachineState) : Oldest :=
  if o.first || p.2.updated < o.oldest then ⟨p.1, p.2.updated, false⟩ else o

/-- The key that is given up, in the order of the loop. -/
def oldestKey (pairs : List (String × MachineState)) : String :=
  (pairs.foldl Oldest.visit ⟨"", 0, true⟩).oldestKey

/-- A call of `recordMachine`: its report, the clock, and the order of its loop. -/
structure Recording where
  report : StatusReport
  now : ℤ
  order : RangeOrder String

def recordMachine (machines : Machines) (c : Recording) : Machines :=
  let machines :=
    if (machines.lookup c.report.serial).isNone && maxMachines ≤ machines.size then
      machines.erase (oldestKey (c.order.visit machines.pairs))
    else machines
  machines.set c.report.serial ⟨c.report, c.now⟩

/-! ## The eviction loop -/

/-- The loop has settled on an entry of those visited, none of which is older. -/
def Oldest.Settled (o : Oldest) (visited : List (String × MachineState)) : Prop :=
  o.first = false ∧ ∃ v, (o.oldestKey, v) ∈ visited ∧ v.updated = o.oldest ∧
    ∀ p ∈ visited, o.oldest ≤ p.2.updated

theorem Oldest.Settled.visit {o : Oldest} {visited : List (String × MachineState)}
    (h : o.Settled visited) (p : String × MachineState) : (o.visit p).Settled (visited ++ [p]) := by
  obtain ⟨hfirst, v, hmem, hv, hleast⟩ := h
  rw [Oldest.visit, hfirst, Bool.false_or]
  split_ifs with hlt
  · -- an older entry
    rw [decide_eq_true_eq] at hlt
    refine ⟨rfl, p.2, by simp, rfl, fun q hq => ?_⟩
    rcases List.mem_append.mp hq with hq | hq
    · exact hlt.le.trans (hleast q hq)
    · rw [List.mem_singleton.mp hq]
  · rw [decide_eq_true_eq, not_lt] at hlt
    refine ⟨hfirst, v, List.mem_append_left _ hmem, hv, fun q hq => ?_⟩
    rcases List.mem_append.mp hq with hq | hq
    · exact hleast q hq
    · rw [List.mem_singleton.mp hq]
      exact hlt

theorem Oldest.Settled.foldl {o : Oldest} {visited : List (String × MachineState)}
    (h : o.Settled visited) (rest : List (String × MachineState)) :
    (rest.foldl Oldest.visit o).Settled (visited ++ rest) := by
  induction rest generalizing o visited with
  | nil => rwa [List.append_nil]
  | cons p rest ih => simpa using ih (h.visit p)

/-- The loop finds an entry that is not newer than any other. -/
theorem exists_oldestKey {pairs : List (String × MachineState)} (h : pairs ≠ []) :
    ∃ v, (oldestKey pairs, v) ∈ pairs ∧ ∀ p ∈ pairs, v.updated ≤ p.2.updated := by
  obtain ⟨p, rest, rfl⟩ := List.exists_cons_of_ne_nil h
  have hsettled : (Oldest.visit ⟨"", 0, true⟩ p).Settled [p] :=
    ⟨rfl, p.2, List.mem_singleton_self _, rfl, by simp [Oldest.visit]⟩
  obtain ⟨-, v, hmem, hv, hleast⟩ := hsettled.foldl rest
  exact ⟨v, hmem, fun q hq => hv ▸ hleast q hq⟩

/-! ## Runs -/

/-- What a call assigns. -/
def Recording.assigned (c : Recording) : String × MachineState :=
  (c.report.serial, ⟨c.report, c.now⟩)

/-- Recording a machine makes room for it and assigns it. -/
theorem recordMachine_makesRoom (machines : Machines) (c : Recording) :
    ∃ machines', MakesRoom MachineState.updated maxMachines c.report.serial machines machines' ∧
      recordMachine machines c = machines'.set c.report.serial ⟨c.report, c.now⟩ := by
  rw [recordMachine]
  split_ifs with hfull
  · rw [Bool.and_eq_true, Option.isNone_iff_eq_none, decide_eq_true_eq] at hfull
    have hne : c.order.visit machines.pairs ≠ [] := by
      intro hnil
      have hlength := (c.order.perm machines.pairs).length_eq
      rw [hnil] at hlength
      exact absurd (hfull.2.trans_eq hlength.symm) (by decide)
    obtain ⟨v, hmem, hleast⟩ := exists_oldestKey hne
    exact ⟨_, .evicted hfull.1 (c.order.mem_visit.mp hmem)
      fun i w hw => hleast (i, w) (c.order.mem_visit.mpr hw), rfl⟩
  · refine ⟨machines, .kept ?_, rfl⟩
    rw [Bool.and_eq_true, Option.isNone_iff_eq_none, decide_eq_true_eq, not_and_or] at hfull
    exact hfull.imp_right not_le.mp

/-- The calls come in the order of the clock. -/
def Clocked (calls : List Recording) : Prop := calls.Pairwise fun c d => c.now ≤ d.now

/-- A run caches what its calls assigned. -/
theorem caches_run {calls : List Recording} (h : Clocked calls) :
    Caches MachineState.updated maxMachines (calls.map Recording.assigned)
      (run recordMachine calls KeyedMap.empty) := by
  induction calls using List.reverseRecOn with
  | nil => exact caches_nil
  | append_singleton calls c ih =>
    obtain ⟨hcalls, -, hlast⟩ := List.pairwise_append.mp h
    rw [run, List.foldl_concat, List.map_append, List.map_singleton]
    obtain ⟨machines', hroom, heq⟩ :=
      recordMachine_makesRoom (run recordMachine calls KeyedMap.empty) c
    rw [run] at heq
    rw [heq]
    refine (ih hcalls).assign hroom fun p hp => ?_
    obtain ⟨d, hd, rfl⟩ := List.mem_map.mp hp
    exact hlast d hd c (List.mem_singleton_self c)

/-- The map is a bounded cache of the reports, least recently reported first out. -/
structure LeastRecent (calls : List Recording) (machines : Machines) : Prop where
  bounded : machines.size ≤ maxMachines
  present : ∀ before c, calls = before ++ [c] →
    machines.lookup c.report.serial = some ⟨c.report, c.now⟩
  latest : ∀ serial v, machines.lookup serial = some v →
    ∃ c, last (·.report.serial) serial calls = some c ∧ v = ⟨c.report, c.now⟩
  oldest : ∀ serial c, last (·.report.serial) serial calls = some c →
    machines.lookup serial = none → ∀ serial' v, machines.lookup serial' = some v →
      c.now ≤ v.updated

/-- **The snapshot is a bounded least-recently-reported cache.** -/
theorem leastRecent_run {calls : List Recording} (h : Clocked calls) :
    LeastRecent calls (run recordMachine calls KeyedMap.empty) := by
  have hcaches := caches_run h
  have hlast (serial : String) :
      last Prod.fst serial (calls.map Recording.assigned) =
        (last (·.report.serial) serial calls).map Recording.assigned :=
    last_map fun _ => rfl
  refine ⟨hcaches.bounded, ?_, ?_, ?_⟩
  · rintro before c rfl
    obtain ⟨machines', -, heq⟩ :=
      recordMachine_makesRoom (run recordMachine before KeyedMap.empty) c
    rw [run] at heq
    rw [run, List.foldl_concat, heq, KeyedMap.lookup_set, if_pos rfl]
  · intro serial v hv
    have hlatest := hcaches.latest serial v hv
    rw [hlast, Option.map_eq_some_iff] at hlatest
    obtain ⟨c, hc, hassigned⟩ := hlatest
    exact ⟨c, hc, (Prod.mk.inj hassigned).2.symm⟩
  · intro serial c hc hnone
    have hserial : c.report.serial = serial := (mem_of_last hc).2
    refine hcaches.oldest serial ⟨c.report, c.now⟩ ?_ hnone
    rw [hlast, hc, Option.map_some, Recording.assigned, hserial]

def nthSerial (n : ℕ) : String := String.ofList (List.replicate (n + 1) 'A')

theorem nthSerial_injective : Function.Injective nthSerial := by
  intro m n h
  have hlength := congrArg List.length (String.ofList_injective h)
  simpa using hlength

/-- The machine of a number reports, at the time of that number. -/
def numbered (n : ℕ) : Recording :=
  ⟨{ StatusReport.empty with serial := nthSerial n }, n, ⟨fun l => l, List.Perm.refl⟩⟩

/-- One machine more than there is room for. -/
def crowd : List Recording := (List.range (maxMachines + 1)).map numbered

theorem clocked_crowd : Clocked crowd := by
  rw [Clocked, crowd, List.pairwise_map]
  exact List.pairwise_lt_range.imp fun h => Int.ofNat_le.mpr h.le

theorem last_crowd {n : ℕ} {c : Recording}
    (h : last (·.report.serial) (nthSerial n) crowd = some c) : c = numbered n := by
  obtain ⟨hmem, hserial⟩ := mem_of_last h
  obtain ⟨i, -, rfl⟩ := List.mem_map.mp hmem
  rw [nthSerial_injective hserial]

/-- The machine that reported first has made room for the last one. -/
theorem leastRecent_crowd : LeastRecent crowd (run recordMachine crowd KeyedMap.empty) ∧
    (run recordMachine crowd KeyedMap.empty).lookup "A" = none := by
  have hleast : LeastRecent crowd (run recordMachine crowd KeyedMap.empty) :=
    leastRecent_run clocked_crowd
  refine ⟨hleast, ?_⟩
  -- one machine has no room, and none that has is older
  have hserials : ((List.range (maxMachines + 1)).map nthSerial).Nodup :=
    List.nodup_range.map nthSerial_injective
  obtain ⟨serial, hmem, hnone⟩ := KeyedMap.exists_lookup_eq_none hserials
    (by simpa using Nat.lt_succ_of_le hleast.bounded)
  obtain ⟨n, hn, rfl⟩ := List.mem_map.mp hmem
  obtain ⟨c, hc⟩ := exists_last (·.report.serial) (List.mem_map_of_mem hn : numbered n ∈ crowd)
  by_contra hsome
  obtain ⟨v, hv⟩ := Option.ne_none_iff_exists'.mp hsome
  obtain ⟨first, hfirst, rfl⟩ := hleast.latest "A" v hv
  have hle := hleast.oldest (nthSerial n) c hc hnone "A" _ hv
  rw [last_crowd hc, last_crowd (n := 0) hfirst] at hle
  obtain rfl : n = 0 := by simpa [numbered] using hle
  exact hsome hnone

end WinDep.Fleet
