/-
# The latest entry per key

A log is a list of entries, each under a key, and a later entry supersedes the
earlier ones of its key. The last entry of a key is a function of the log that
appending changes at one key only. Where entries carry a rank that grows along
the log, the last entry of a key is the one of the highest rank.
-/

import Mathlib.Data.List.Dedup
import Mathlib.Data.List.Induction
import Mathlib.Data.List.Infix
import Mathlib.Data.List.Nodup
import Mathlib.Order.Lattice

namespace WinDep.Latest

variable {α β κ ι : Type*} [DecidableEq κ] {key : α → κ} {k : κ} {l : List α} {a b : α}

/-- The last entry of a key. -/
def last (key : α → κ) (k : κ) (l : List α) : Option α := (l.filter fun a => key a = k).getLast?

@[simp] theorem last_nil : last key k [] = none := rfl

@[simp] theorem last_concat :
    last key k (l ++ [a]) = if key a = k then some a else last key k l := by
  unfold last
  by_cases h : key a = k <;> simp [h]

/-- What comes later decides, if it has the key. -/
theorem last_append {l' : List α} :
    last key k (l ++ l') = (last key k l').or (last key k l) := by
  rw [last, last, last, List.filter_append, List.getLast?_append]

theorem last_eq_none_iff : last key k l = none ↔ k ∉ l.map key := by
  simp [last]

theorem mem_of_last (h : last key k l = some a) : a ∈ l ∧ key a = k := by
  simpa using List.mem_of_getLast? h

theorem exists_last (key : α → κ) (h : a ∈ l) : ∃ b, last key (key a) l = some b := by
  apply Option.ne_none_iff_exists'.mp
  intro hnone
  exact last_eq_none_iff.mp hnone (List.mem_map_of_mem h)

/-- Entries under other names have the same last entry, renamed. -/
theorem last_map {key' : β → κ} {f : α → β} (h : ∀ a, key' (f a) = key a) :
    last key' k (l.map f) = (last key k l).map f := by
  simp [last, List.filter_map, Function.comp_def, h]

theorem last_congr {κ' : Type*} [DecidableEq κ'] {key' : α → κ'} {k' : κ'}
    (h : ∀ a ∈ l, key a = k ↔ key' a = k') : last key k l = last key' k' l := by
  unfold last
  congr 1
  apply List.filter_congr
  intro a ha
  simp [h a ha]

/-- Keys may be renamed as long as they stay apart. -/
theorem last_comp {κ' : Type*} [DecidableEq κ'] {f : κ → κ'} (hf : Function.Injective f) :
    last (fun a => f (key a)) (f k) l = last key k l :=
  last_congr fun _ _ => hf.eq_iff

/-- Among entries of growing rank, the last of a key has the highest rank. -/
theorem last_eq_some_iff [LinearOrder ι] {rank : α → ι}
    (hrank : l.Pairwise fun a b => rank a < rank b) :
    last key k l = some a ↔ (a ∈ l ∧ key a = k) ∧ ∀ b ∈ l, key b = k → rank b ≤ rank a := by
  induction l using List.reverseRecOn with
  | nil => simp
  | append_singleton l c ih =>
    obtain ⟨hinit, -, hlt⟩ := List.pairwise_append.mp hrank
    have hlt (b : α) (hb : b ∈ l) : rank b < rank c := hlt b hb c (by simp)
    rw [last_concat]
    -- the new entry outranks all others, and counts if it has the key
    by_cases hc : key c = k
    · rw [if_pos hc, Option.some.injEq]
      constructor
      · rintro rfl
        refine ⟨by simp [hc], fun b hb _ => ?_⟩
        rcases List.mem_append.mp hb with hb | hb
        · exact (hlt b hb).le
        · rw [List.mem_singleton.mp hb]
      · rintro ⟨⟨ha, -⟩, hmax⟩
        rcases List.mem_append.mp ha with ha | ha
        · exact absurd (hlt a ha) (hmax c (by simp) hc).not_gt
        · exact (List.mem_singleton.mp ha).symm
    · rw [if_neg hc, ih hinit]
      constructor
      · rintro ⟨⟨ha, hka⟩, hmax⟩
        refine ⟨⟨by simp [ha], hka⟩, fun b hb hkb => ?_⟩
        rcases List.mem_append.mp hb with hb | hb
        · exact hmax b hb hkb
        · exact absurd (List.mem_singleton.mp hb ▸ hkb) hc
      · rintro ⟨⟨ha, hka⟩, hmax⟩
        rcases List.mem_append.mp ha with ha | ha
        · exact ⟨⟨ha, hka⟩, fun b hb hkb => hmax b (by simp [hb]) hkb⟩
        · exact absurd (List.mem_singleton.mp ha ▸ hka) hc

/-! ## One entry per key -/

/-- The last entries of all keys of the log. -/
def latest (key : α → κ) (l : List α) : List α :=
  (l.map key).dedup.filterMap fun k => last key k l

theorem mem_latest : a ∈ latest key l ↔ last key (key a) l = some a := by
  simp only [latest, List.mem_filterMap, List.mem_dedup, List.mem_map]
  constructor
  · rintro ⟨k, -, hk⟩
    obtain ⟨-, rfl⟩ := mem_of_last hk
    exact hk
  · intro h
    exact ⟨key a, ⟨a, (mem_of_last h).1, rfl⟩, h⟩

theorem nodup_latest : (latest key l).Nodup := by
  apply (List.nodup_dedup _).filterMap
  intro k k' b hb hb'
  exact (mem_of_last hb).2.symm.trans (mem_of_last hb').2

theorem filter_latest (k : κ) :
    (latest key l).filter (fun a => key a = k) = (last key k l).toList := by
  have hmem (a : α) : a ∈ (latest key l).filter (fun a => key a = k) ↔ last key k l = some a := by
    rw [List.mem_filter, mem_latest, decide_eq_true_eq]
    constructor
    · rintro ⟨ha, rfl⟩
      exact ha
    · intro ha
      obtain ⟨-, rfl⟩ := mem_of_last ha
      exact ⟨ha, rfl⟩
  cases hlast : last key k l with
  | none =>
    apply List.eq_nil_iff_forall_not_mem.mpr
    intro a ha
    rw [hmem, hlast] at ha
    exact Option.some_ne_none a ha.symm
  | some a =>
    -- a list without repetition is known by its members
    apply List.perm_singleton.mp
    apply (List.perm_ext_iff_of_nodup (nodup_latest.filter _) (List.nodup_singleton a)).mpr
    intro b
    rw [hmem, hlast, Option.some.injEq, List.mem_singleton, eq_comm]

/-- The latest entries with a property are as many as the keys whose last entry has it. -/
theorem countP_latest (p : α → Bool) :
    (latest key l).countP p = (l.map key).dedup.countP fun k => (last key k l).any p := by
  rw [latest, List.countP_filterMap]
  apply List.countP_congr
  intro k hk
  cases last key k l <;> simp

theorem length_latest : (latest key l).length = (l.map key).dedup.length := by
  have hany (k : κ) (hk : k ∈ (l.map key).dedup) : (last key k l).any (fun _ => true) = true := by
    obtain ⟨a, ha, rfl⟩ := List.mem_map.mp (List.mem_dedup.mp hk)
    obtain ⟨b, hb⟩ := exists_last key ha
    simp [hb]
  calc (latest key l).length = (latest key l).countP fun _ => true := by simp
    _ = (l.map key).dedup.countP fun k => (last key k l).any fun _ => true := countP_latest _
    _ = (l.map key).dedup.length := List.countP_eq_length.mpr hany

/-! ## Cutting the log

A log may be cut to its entries of highest rank. Where ranks grow along the log these are its last
entries, and what was last in the whole is last in what is left, unless it was cut off. -/

section

variable [LinearOrder ι] (rank : α → ι) (n : ℕ)

/-- `SELECT id ... ORDER BY id DESC LIMIT n` -/
def newestRanks (l : List α) : List ι := ((l.map rank).mergeSort fun i j => j ≤ i).take n

/-- `DELETE ... WHERE id NOT IN` the newest -/
def pruneRows (l : List α) : List α := l.filter fun a => rank a ∈ newestRanks rank n l

variable {rank n}

/-- Where ranks grow along the list, the newest rows are the last ones. -/
theorem newestRanks_eq (hrank : l.Pairwise fun a b => rank a < rank b) :
    newestRanks rank n l = ((l.drop (l.length - n)).map rank).reverse := by
  have hsorted : (l.map rank).mergeSort (fun i j => j ≤ i) = (l.map rank).reverse := by
    -- two orderings of the same numbers from the highest down
    refine @List.Perm.eq_of_pairwise ι (fun i j => j ≤ i) _ _ (fun _ _ _ _ h h' => ?_) ?_ ?_
      ((List.mergeSort_perm _ _).trans (List.reverse_perm _).symm)
    · exact le_antisymm h' h
    · refine (List.pairwise_mergeSort (fun _ _ _ h h' => ?_) (fun _ _ => ?_) _).imp
        (by simp)
      · simp only [decide_eq_true_eq] at h h' ⊢
        exact h'.trans h
      · simpa using le_total _ _
    · rw [List.pairwise_reverse, List.pairwise_map]
      exact hrank.imp le_of_lt
  rw [newestRanks, hsorted, List.take_reverse, List.length_map, List.map_drop]

/-- The rows before the newest rank below them. -/
theorem rank_lt_of_mem_drop (hrank : l.Pairwise fun a b => rank a < rank b) {b : α} {i : ℕ}
    (ha : a ∈ l.take i) (hb : b ∈ l.drop i) : rank a < rank b := by
  rw [← List.take_append_drop i l] at hrank
  exact (List.pairwise_append.mp hrank).2.2 a ha b hb

/-- **Pruning cuts a prefix off.** -/
theorem pruneRows_eq_drop (hrank : l.Pairwise fun a b => rank a < rank b) :
    pruneRows rank n l = l.drop (l.length - n) := by
  have hmem (a : α) : rank a ∈ newestRanks rank n l ↔
      ∃ b ∈ l.drop (l.length - n), rank b = rank a := by
    rw [newestRanks_eq hrank, List.mem_reverse, List.mem_map]
  have hold : (l.take (l.length - n)).filter (fun a => rank a ∈ newestRanks rank n l) = [] := by
    rw [List.filter_eq_nil_iff]
    intro a ha hnew
    obtain ⟨b, hb, heq⟩ := (hmem a).mp (of_decide_eq_true hnew)
    exact (rank_lt_of_mem_drop hrank ha hb).ne heq.symm
  have hnew : (l.drop (l.length - n)).filter (fun a => rank a ∈ newestRanks rank n l) =
      l.drop (l.length - n) := by
    rw [List.filter_eq_self]
    intro a ha
    exact decide_eq_true ((hmem a).mpr ⟨a, ha, rfl⟩)
  calc pruneRows rank n l
      = (l.take (l.length - n) ++ l.drop (l.length - n)).filter
          fun a => rank a ∈ newestRanks rank n l := by rw [List.take_append_drop, pruneRows]
    _ = l.drop (l.length - n) := by rw [List.filter_append, hold, hnew, List.nil_append]

/-- A row that is pruned has `n` newer ones. -/
theorem le_length_newer (hrank : l.Pairwise fun a b => rank a < rank b) (ha : a ∈ l)
    (hgone : a ∉ l.drop (l.length - n)) : n ≤ (l.filter fun b => rank a < rank b).length := by
  have hold : a ∈ l.take (l.length - n) := by
    rw [← List.take_append_drop (l.length - n) l, List.mem_append] at ha
    exact ha.resolve_right hgone
  have hle : n ≤ l.length := by
    by_contra hlt
    have hzero : l.length - n = 0 := by omega
    rw [hzero, List.drop_zero] at hgone
    exact hgone ha
  -- everything that is kept is newer
  have hnewer : (l.drop (l.length - n)).filter (fun b => rank a < rank b) =
      l.drop (l.length - n) := by
    rw [List.filter_eq_self]
    intro b hb
    exact decide_eq_true (rank_lt_of_mem_drop hrank hold hb)
  calc n = (l.drop (l.length - n)).length := by rw [List.length_drop]; omega
    _ ≤ (l.filter fun b => rank a < rank b).length := by
      rw [← hnewer]
      exact ((List.drop_sublist _ _).filter _).length_le

/-! ## Views of the newest rows -/

/-- `SELECT ... ORDER BY id DESC LIMIT n` -/
def newestRows (rank : α → ι) (n : ℕ) (l : List α) : List α :=
  (l.mergeSort fun a b => rank b ≤ rank a).take n

/-- Where ranks grow along the list, the newest rows are read off its end. -/
theorem newestRows_eq (hrank : l.Pairwise fun a b => rank a < rank b) :
    newestRows rank n l = l.reverse.take n := by
  have hsorted : l.mergeSort (fun a b => rank b ≤ rank a) = l.reverse := by
    refine @List.Perm.eq_of_pairwise α (fun a b => rank b ≤ rank a) _ _ (fun a b ha hb h h' => ?_)
      ?_ ?_ ((List.mergeSort_perm _ _).trans (List.reverse_perm _).symm)
    · -- two rows of one rank are one row
      have hnodup : (l.map rank).Nodup := List.pairwise_map.mpr (hrank.imp ne_of_lt)
      exact List.inj_on_of_nodup_map hnodup (List.mem_mergeSort.mp ha) (List.mem_reverse.mp hb)
        (le_antisymm h' h)
    · refine (List.pairwise_mergeSort (fun _ _ _ h h' => ?_) (fun _ _ => ?_) _).imp
        (by simp)
      · simp only [decide_eq_true_eq] at h h' ⊢
        exact h'.trans h
      · simpa using le_total _ _
    · rw [List.pairwise_reverse]
      exact hrank.imp le_of_lt
  rw [newestRows, hsorted]

end

/-- The list is what cuts have left of a log: the end of it, and the whole of it unless `m` entries
are left. -/
structure Cut (m : ℕ) (log left : List α) : Prop where
  suffix : left <:+ log
  enough : left = log ∨ m ≤ left.length

namespace Cut

variable {m n : ℕ} {log left : List α}

theorem refl (m : ℕ) (log : List α) : Cut m log log := ⟨List.suffix_rfl, .inl rfl⟩

theorem concat (h : Cut m log left) (a : α) : Cut m (log ++ [a]) (left ++ [a]) := by
  obtain ⟨dropped, hdropped⟩ := h.suffix
  refine ⟨⟨dropped, by rw [← hdropped, List.append_assoc]⟩, ?_⟩
  rcases h.enough with rfl | hle
  · exact .inl rfl
  · exact .inr (by rw [List.length_append]; omega)

/-- A further cut that leaves `m` entries. -/
theorem drop (h : Cut m log left) (hn : m ≤ n) : Cut m log (left.drop (left.length - n)) := by
  refine ⟨(List.drop_suffix _ _).trans h.suffix, ?_⟩
  rcases Nat.le_total left.length n with hle | hle
  · rw [Nat.sub_eq_zero_of_le hle, List.drop_zero]
    exact h.enough
  · exact .inr (by rw [List.length_drop]; omega)

theorem map (h : Cut m log left) (f : α → β) : Cut m (log.map f) (left.map f) :=
  ⟨h.suffix.map f, h.enough.imp (congrArg _) fun hle => by rwa [List.length_map]⟩

/-- The newest `m` entries of the log are left. -/
theorem take_reverse_prefix (h : Cut m log left) : log.reverse.take m <+: left.reverse := by
  rcases h.enough with rfl | hle
  · exact List.take_prefix _ _
  · refine List.prefix_of_prefix_length_le (List.take_prefix _ _)
      (List.reverse_prefix.mpr h.suffix) ?_
    rw [List.length_reverse]
    exact (List.length_take_le _ _).trans hle

/-- **A view of a cut log** shows nothing that the same view of the whole log does not show, and
everything that it shows of the newest `m` entries. -/
theorem view (h : Cut m log left) (p : α → Bool) (n : ℕ) :
    ((log.reverse.take m).filter p).take n <+: (left.reverse.filter p).take n ∧
      (left.reverse.filter p).take n <+: (log.reverse.filter p).take n :=
  ⟨(h.take_reverse_prefix.filter p).take n, ((List.reverse_prefix.mpr h.suffix).filter p).take n⟩

end Cut

end WinDep.Latest
