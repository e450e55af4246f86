import Mathlib.Data.List.Basic
import Mathlib.Tactic.Common

/-! Numbers in decimal texts: their digits, the zeros that fill a width, and what such a text reads
as. -/

namespace Livora.DecimalTexts

/-- `text.padStart(width, '0')` -/
def padStart (width : ℕ) (text : List Char) : List Char :=
  List.replicate (width - text.length) '0' ++ text

def padded (width n : ℕ) : List Char := padStart width (Nat.toDigits 10 n)

def value (digits : List Char) : ℕ := Nat.ofDigitChars 10 digits 0

theorem value_padded (width n : ℕ) : value (padded width n) = n := by
  rw [value, padded, padStart, Nat.ofDigitChars_append, Nat.ofDigitChars_replicate_zero,
    Nat.mul_zero, Nat.ofDigitChars_ten_toDigits]

theorem padded_inj {width width' m n : ℕ} (h : padded width m = padded width' n) : m = n := by
  rw [← value_padded width m, h, value_padded]

theorem isDigit_padded {width n : ℕ} {c : Char} (h : c ∈ padded width n) : c.isDigit = true := by
  rcases List.mem_append.mp h with hzero | hdigit
  · rw [List.eq_of_mem_replicate hzero]
    rfl
  · exact Nat.isDigit_of_mem_toDigits (by decide) (by decide) hdigit

theorem padded_ne_nil (width n : ℕ) : padded width n ≠ [] := fun h =>
  Nat.toDigits_ne_nil (List.append_eq_nil_iff.mp h).2

theorem value_toDigits (n : ℕ) : value (Nat.toDigits 10 n) = n := Nat.ofDigitChars_ten_toDigits

theorem toDigits_inj {m n : ℕ} (h : Nat.toDigits 10 m = Nat.toDigits 10 n) : m = n := by
  rw [← value_toDigits m, h, value_toDigits]

theorem not_mem_toDigits {c : Char} (n : ℕ) (h : c.isDigit = false) : c ∉ Nat.toDigits 10 n :=
  fun hc => by
  have hdigit := Nat.isDigit_of_mem_toDigits (by decide) (by decide) hc
  rw [h] at hdigit
  cases hdigit

theorem append_cons_inj {α : Type*} {c : α} {xs xs' ys ys' : List α} (hxs : c ∉ xs) (hxs' : c ∉ xs')
    (h : xs ++ c :: ys = xs' ++ c :: ys') : xs = xs' ∧ ys = ys' := by
  induction xs generalizing xs' with
  | nil =>
    cases xs' with
    | nil => exact ⟨rfl, (List.cons.inj h).2⟩
    | cons x' xs' => exact absurd ((List.cons.inj h).1 ▸ List.mem_cons_self) hxs'
  | cons x xs ih =>
    cases xs' with
    | nil => exact absurd ((List.cons.inj h).1 ▸ List.mem_cons_self) hxs
    | cons x' xs' =>
      obtain ⟨rfl, hrest⟩ := List.cons.inj h
      obtain ⟨hsame, hys⟩ := ih (fun hc => hxs (List.mem_cons_of_mem _ hc))
        (fun hc => hxs' (List.mem_cons_of_mem _ hc)) hrest
      exact ⟨congrArg _ hsame, hys⟩

theorem append_cons_inj_right {α : Type*} {c : α} {xs xs' ys ys' : List α} (hys : c ∉ ys)
    (hys' : c ∉ ys') (h : xs ++ c :: ys = xs' ++ c :: ys') : xs = xs' ∧ ys = ys' := by
  have hreverse : ys.reverse ++ c :: xs.reverse = ys'.reverse ++ c :: xs'.reverse := by
    simpa using congrArg List.reverse h
  obtain ⟨hright, hleft⟩ := append_cons_inj (fun hc => hys (List.mem_reverse.mp hc))
    (fun hc => hys' (List.mem_reverse.mp hc)) hreverse
  exact ⟨List.reverse_injective hleft, List.reverse_injective hright⟩

end Livora.DecimalTexts
