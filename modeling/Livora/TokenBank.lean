import Mathlib.Data.Finsupp.Weight
import Mathlib.Tactic.Abel
import Mathlib.Tactic.Linarith

/-! What a token ledger is for, over an arbitrary type of holders: a supply, a
finitely supported balance for every holder, and postings that change them.
A posting reads both balances before it writes either, the sender's first, so a
transfer from a holder to itself leaves the second write standing. The totals
below say exactly what each posting does, that case included. -/

namespace Livora.TokenBank

structure Bank (α : Type*) where
  balance : α →₀ ℤ
  supply : ℤ

inductive Posting (α : Type*) where
  | mint (target : α) (amount : ℤ)
  | move (source target : α) (amount : ℤ)

variable {α : Type*}

namespace Bank

noncomputable def total (b : Bank α) : ℤ := b.balance.degree

/-- What the balances hold beyond the recorded supply. -/
noncomputable def drift (b : Bank α) : ℤ := b.total - b.supply

/-- Nobody is in debt. -/
def Solvent (b : Bank α) : Prop := ∀ a, 0 ≤ b.balance a

theorem Solvent.total_nonneg {b : Bank α} (hb : b.Solvent) : 0 ≤ b.total := by
  rw [total, Finsupp.degree_apply]
  exact Finset.sum_nonneg fun i _ => hb i

theorem Solvent.balance_le_supply {b : Bank α} (hb : b.Solvent) (hd : b.drift = 0) (a : α) :
    b.balance a ≤ b.supply := by
  have htotal : b.total = b.supply := by
    simp only [drift] at hd
    linarith
  rw [← htotal, total, Finsupp.degree_apply]
  by_cases ha : a ∈ b.balance.support
  · exact Finset.single_le_sum (fun i _ => hb i) ha
  · rw [Finsupp.notMem_support_iff.mp ha]
    exact Finset.sum_nonneg fun i _ => hb i

variable [DecidableEq α]

noncomputable def post (b : Bank α) : Posting α → Bank α
  | .mint target n => ⟨b.balance + Finsupp.single target n, b.supply + n⟩
  | .move x y n =>
    if x = y then ⟨b.balance + Finsupp.single y n, b.supply⟩
    else ⟨b.balance - Finsupp.single x n + Finsupp.single y n, b.supply⟩

noncomputable def postAll (b : Bank α) (ps : List (Posting α)) : Bank α := ps.foldl post b

@[simp] theorem postAll_nil (b : Bank α) : b.postAll [] = b := rfl

@[simp] theorem postAll_cons (b : Bank α) (p : Posting α) (ps : List (Posting α)) :
    b.postAll (p :: ps) = (b.post p).postAll ps := rfl

theorem postAll_append (b : Bank α) (ps qs : List (Posting α)) :
    b.postAll (ps ++ qs) = (b.postAll ps).postAll qs := List.foldl_append

theorem drift_mint (b : Bank α) (target : α) (n : ℤ) :
    (b.post (.mint target n)).drift = b.drift := by
  simp only [drift, total, post, map_add, Finsupp.degree_single]
  abel

theorem drift_move (b : Bank α) {x y : α} (h : x ≠ y) (n : ℤ) :
    (b.post (.move x y n)).drift = b.drift := by
  simp only [drift, total, post, if_neg h, map_add, map_sub, Finsupp.degree_single]
  abel

/-- Moving to oneself creates the amount outside the supply. -/
theorem drift_move_self (b : Bank α) (x : α) (n : ℤ) :
    (b.post (.move x x n)).drift = b.drift + n := by
  simp only [drift, total, post, if_true, map_add, Finsupp.degree_single]
  abel

end Bank

def minted : List (Posting α) → ℤ
  | [] => 0
  | .mint _ n :: ps => n + minted ps
  | .move _ _ _ :: ps => minted ps

theorem minted_append (ps qs : List (Posting α)) : minted (ps ++ qs) = minted ps + minted qs := by
  induction ps with
  | nil => simp [minted]
  | cons p ps ih => cases p <;> simp [minted, ih, add_assoc]

def mintedTo [DecidableEq α] (a : α) : List (Posting α) → ℤ
  | [] => 0
  | .mint target n :: ps => (if target = a then n else 0) + mintedTo a ps
  | .move _ _ _ :: ps => mintedTo a ps

theorem mintedTo_append [DecidableEq α] (a : α) (ps qs : List (Posting α)) :
    mintedTo a (ps ++ qs) = mintedTo a ps + mintedTo a qs := by
  induction ps with
  | nil => simp [mintedTo]
  | cons p ps ih => cases p <;> simp [mintedTo, ih, add_assoc]

def OnlyMints (ps : List (Posting α)) : Prop :=
  ∀ p ∈ ps, ∃ target n, p = .mint target n

variable [DecidableEq α]

/-- The holders a list of mints names receive all of it. -/
theorem sum_mintedTo {ps : List (Posting α)} {F : Finset α} (h : OnlyMints ps)
    (hF : ∀ target n, .mint target n ∈ ps → target ∈ F) :
    ∑ a ∈ F, mintedTo a ps = minted ps := by
  induction ps with
  | nil => simp [mintedTo, minted]
  | cons p ps ih =>
    obtain ⟨target, n, rfl⟩ := h p List.mem_cons_self
    have hrest := ih (fun q hq => h q (List.mem_cons_of_mem _ hq))
      (fun t m hm => hF t m (List.mem_cons_of_mem _ hm))
    simp only [mintedTo, minted, Finset.sum_add_distrib, hrest, Finset.sum_ite_eq,
      if_pos (hF target n List.mem_cons_self)]

namespace Bank

theorem supply_postAll (b : Bank α) (ps : List (Posting α)) :
    (b.postAll ps).supply = b.supply + minted ps := by
  induction ps generalizing b with
  | nil => simp [minted]
  | cons p ps ih =>
    rw [postAll_cons, ih]
    cases p with
    | mint target n => simp [post, minted, add_assoc]
    | move x y n => by_cases h : x = y <;> simp [post, minted, h]

theorem balance_postAll_of_mints {ps : List (Posting α)} (h : OnlyMints ps) (b : Bank α) (a : α) :
    (b.postAll ps).balance a = b.balance a + mintedTo a ps := by
  induction ps generalizing b with
  | nil => simp [mintedTo]
  | cons p ps ih =>
    obtain ⟨target, n, rfl⟩ := h p List.mem_cons_self
    rw [postAll_cons, ih fun q hq => h q (List.mem_cons_of_mem _ hq)]
    by_cases e : target = a <;> simp [post, mintedTo, e, add_assoc]

theorem drift_postAll_of_mints {ps : List (Posting α)} (h : OnlyMints ps) (b : Bank α) :
    (b.postAll ps).drift = b.drift := by
  induction ps generalizing b with
  | nil => rfl
  | cons p ps ih =>
    obtain ⟨target, n, rfl⟩ := h p List.mem_cons_self
    rw [postAll_cons, ih fun q hq => h q (List.mem_cons_of_mem _ hq), drift_mint]

theorem balance_post_move (b : Bank α) (x y a : α) (n : ℤ) :
    (b.post (.move x y n)).balance a =
      b.balance a - (if x = a ∧ x ≠ y then n else 0) + if y = a then n else 0 := by
  by_cases hxy : x = y
  · simp [post, hxy, Finsupp.single_apply]
  · simp [post, hxy, Finsupp.single_apply]

theorem Solvent.move {b : Bank α} (hb : b.Solvent) {x y : α} {n : ℤ} (hn : 0 ≤ n)
    (hx : n ≤ b.balance x) : (b.post (.move x y n)).Solvent := by
  intro a
  have ha := hb a
  rw [balance_post_move]
  by_cases hxa : x = a ∧ x ≠ y
  · obtain ⟨rfl, hxy⟩ := hxa
    rw [if_pos ⟨rfl, hxy⟩, if_neg (Ne.symm hxy)]
    omega
  · rw [if_neg hxa]
    split <;> omega

theorem Solvent.mints {b : Bank α} (hb : b.Solvent) {ps : List (Posting α)} (h : OnlyMints ps)
    (hnet : ∀ a, 0 ≤ mintedTo a ps) : (b.postAll ps).Solvent := by
  intro a
  rw [balance_postAll_of_mints h]
  exact add_nonneg (hb a) (hnet a)

end Bank

theorem minted_nonneg {ps : List (Posting α)} (h : OnlyMints ps)
    (hnet : ∀ a, 0 ≤ mintedTo a ps) : 0 ≤ minted ps := by
  have hempty : (⟨0, 0⟩ : Bank α).Solvent := fun a => le_rfl
  have hdrift := Bank.drift_postAll_of_mints h ⟨0, 0⟩
  have htotal := (hempty.mints h hnet).total_nonneg
  simp only [Bank.drift, Bank.supply_postAll, Bank.total, map_zero, sub_zero, zero_add] at *
  linarith

end Livora.TokenBank
