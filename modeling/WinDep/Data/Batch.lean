/-
# Batches

Items are collected in a buffer that is sent when it has a given size. What was
sent and what is still in the buffer is what was pushed, in its order, and the
length of the buffer is the remainder of the number of items.
-/

import Mathlib.Data.List.Basic

namespace WinDep

/-- The buffer, and the batches that were sent. -/
structure Batcher (α : Type*) where
  buffer : List α
  sent : List (List α)

namespace Batcher

variable {α : Type*} {size : ℕ} {b : Batcher α} {x : α} {xs : List α}

def empty : Batcher α := ⟨[], []⟩

/-- Send the buffer, if there is something in it. -/
def flush (b : Batcher α) : Batcher α :=
  if b.buffer = [] then b else ⟨[], b.sent ++ [b.buffer]⟩

/-- Add an item, and send the buffer if it has the size. -/
def push (size : ℕ) (b : Batcher α) (x : α) : Batcher α :=
  let b : Batcher α := { b with buffer := b.buffer ++ [x] }
  if size ≤ b.buffer.length then b.flush else b

/-- All that was pushed. -/
def pushed (b : Batcher α) : List α := b.sent.flatten ++ b.buffer

@[simp] theorem pushed_flush : b.flush.pushed = b.pushed := by
  rw [flush]
  split_ifs
  · rfl
  · simp [pushed]

@[simp] theorem buffer_flush : b.flush.buffer = [] := by
  rw [flush]
  split_ifs with h
  · exact h
  · rfl

@[simp] theorem pushed_push : (b.push size x).pushed = b.pushed ++ [x] := by
  have hadd : (⟨b.buffer ++ [x], b.sent⟩ : Batcher α).pushed = b.pushed ++ [x] :=
    (List.append_assoc _ _ _).symm
  rw [push]
  split_ifs
  · rw [pushed_flush, hadd]
  · exact hadd

/-- The buffer grows up to the size, and is then empty. -/
theorem length_buffer_push (h : b.buffer.length < size) :
    (b.push size x).buffer.length = (b.buffer.length + 1) % size := by
  have hlength : (b.buffer ++ [x]).length = b.buffer.length + 1 := List.length_append
  rw [push]
  split_ifs with hfull
  · rw [hlength] at hfull
    rw [buffer_flush, List.length_nil, show b.buffer.length + 1 = size by omega, Nat.mod_self]
  · rw [hlength] at hfull
    rw [hlength, Nat.mod_eq_of_lt (by omega)]

/-- **Nothing is lost.** What was sent and what is in the buffer is what was pushed. -/
theorem pushed_foldl (size : ℕ) (b : Batcher α) (xs : List α) :
    (xs.foldl (push size) b).pushed = b.pushed ++ xs := by
  induction xs generalizing b with
  | nil => simp
  | cons x xs ih => rw [List.foldl_cons, ih, pushed_push, List.append_assoc, List.singleton_append]

theorem length_buffer_foldl (xs : List α) (h : b.buffer.length < size) :
    (xs.foldl (push size) b).buffer.length = (b.buffer.length + xs.length) % size := by
  induction xs generalizing b with
  | nil => exact (Nat.mod_eq_of_lt h).symm
  | cons x xs ih =>
    have hpush := length_buffer_push (x := x) h
    have hlt : (b.push size x).buffer.length < size := by
      rw [hpush]
      exact Nat.mod_lt _ (Nat.zero_lt_of_lt h)
    rw [List.foldl_cons, ih hlt, hpush, Nat.mod_add_mod, List.length_cons, Nat.add_assoc,
      Nat.add_comm 1]

/-- All items were sent exactly if their number is a multiple of the size. -/
theorem sent_foldl_iff (hsize : 0 < size) :
    (xs.foldl (push size) empty).sent.flatten = xs ↔ xs.length % size = 0 := by
  have hpushed : (xs.foldl (push size) empty).pushed = xs := pushed_foldl size empty xs
  have hempty : (empty : Batcher α).buffer.length < size := hsize
  have hlength := length_buffer_foldl xs hempty
  simp only [empty, List.length_nil, Nat.zero_add] at hlength
  constructor
  · intro hsent
    have hbuffer : (xs.foldl (push size) empty).buffer = [] := by
      rw [pushed, hsent] at hpushed
      exact List.append_right_eq_self.mp hpushed
    rw [← hlength]
    exact congrArg List.length hbuffer
  · intro hmod
    rw [hmod, List.length_eq_zero_iff] at hlength
    rw [pushed] at hpushed
    rwa [show (xs.foldl (push size) empty).buffer = [] from hlength, List.append_nil] at hpushed

end Batcher

end WinDep
