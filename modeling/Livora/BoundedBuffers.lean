import Mathlib.Data.List.Basic
import Mathlib.Data.List.Induction

/-! A buffer of the latest entries, and a list read in pages. -/

namespace Livora.BoundedBuffers

variable {α : Type*} {size limit : ℕ}

def push (size : ℕ) (buffer : List α) (x : α) : List α :=
  (if size ≤ buffer.length then buffer.tail else buffer) ++ [x]

def latest (size : ℕ) (l : List α) : List α := l.drop (l.length - size)

theorem length_latest (size : ℕ) (l : List α) : (latest size l).length = min l.length size := by
  rw [latest, List.length_drop]
  omega

theorem push_latest (h : 0 < size) (l : List α) (x : α) :
    push size (latest size l) x = latest size (l ++ [x]) := by
  rw [push, length_latest, latest, latest, List.length_append, List.length_singleton]
  split
  · rename_i hfull
    rw [List.tail_drop, List.drop_append_of_le_length (by omega)]
    congr 2
    omega
  · rename_i hroom
    rw [show l.length - size = 0 by omega, show l.length + 1 - size = 0 by omega]
    rfl

/-- After any pushes the buffer is the latest of them, in their order. -/
theorem foldl_push (h : 0 < size) (l : List α) : l.foldl (push size) [] = latest size l := by
  induction l using List.reverseRecOn with
  | nil => exact List.drop_nil.symm
  | append_singleton l x ih =>
    rw [List.foldl_append, ih, List.foldl_cons, List.foldl_nil, push_latest h]

/-- `l.slice(skip, skip + limit)` -/
def page (limit : ℕ) (l : List α) (skip : ℕ) : List α := (l.drop skip).take limit

theorem flatMap_page (limit : ℕ) (l : List α) (m : ℕ) :
    (List.range m).flatMap (fun k => page limit l (k * limit)) = l.take (m * limit) := by
  induction m with
  | zero => simp
  | succ m ih =>
    rw [List.range_succ, List.flatMap_append, ih, List.flatMap_singleton, page, Nat.succ_mul,
      List.take_add]

theorem pages_eq {l : List α} {m : ℕ} (h : l.length ≤ m * limit) :
    (List.range m).flatMap (fun k => page limit l (k * limit)) = l := by
  rw [flatMap_page, List.take_of_length_le h]

end Livora.BoundedBuffers
