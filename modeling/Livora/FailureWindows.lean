import Mathlib.Data.List.Induction
import Mathlib.Tactic.Common

/-! Failures that are counted in a key with a time to live. A history holds the attempts, right or
wrong, and the counts that were written down, in the order in which they were made; from what every
entry may add to it follows how many wrong attempts any window of time holds, and that none is made
in the time after the one that reached the limit. -/

namespace Livora.FailureWindows

inductive Mark where
  | tried (time : ℕ) (right : Bool)
  | counted (time count : ℕ)
deriving DecidableEq

def Mark.time : Mark → ℕ
  | .tried t _ => t
  | .counted t _ => t

def wrongIn (lo hi : ℕ) : Mark → Bool
  | .tried t right => !right && (decide (lo ≤ t) && decide (t < hi))
  | .counted _ _ => false

/-- How many wrong attempts were made from `lo` on and before `hi`. -/
def wrongs (lo hi : ℕ) (h : List Mark) : ℕ := h.countP (wrongIn lo hi)

def strike (l : List ℕ) : Mark → List ℕ
  | .tried t right => if right then [] else t :: l
  | .counted _ _ => l

/-- The wrong attempts since the last right one, the last one first. -/
def strikes (h : List Mark) : List ℕ := h.foldl strike []

def recent (window : ℕ) (l : List ℕ) (now : ℕ) : ℕ := l.countP fun t => decide (now < t + window)

/-- The last attempt was wrong and has not been counted. -/
def Owing (h : List Mark) : Prop := ∃ t, h.getLast? = some (.tried t false)

/-- An attempt is made where the last one is counted if it was wrong, where less than the limit were
wrong in the last window, and where no count has reached the limit in it; what is counted is no less
than what was wrong in the last window. -/
def Fair (window limit : ℕ) (h : List Mark) : Mark → Prop
  | .tried t right => ¬Owing h ∧ (right = false → recent window (t :: strikes h) t ≤ limit) ∧
      ∀ s n, .counted s n ∈ h → limit ≤ n → s + window ≤ t
  | .counted s n => recent window (strikes h) s ≤ n

/-- Every entry is made after the ones before it, and is fair after them. -/
def Lawful (window limit : ℕ) (h : List Mark) : Prop :=
  ∀ p m q, h = p ++ m :: q → (∀ m' ∈ p, m'.time ≤ m.time) ∧ Fair window limit p m

variable {window limit now now' lo hi c t : ℕ} {right : Bool} {l : List ℕ} {h p q : List Mark}
    {m : Mark}

/-! ### The attempts of the last window -/

theorem strikes_append : strikes (h ++ [m]) = strike (strikes h) m := by
  simp [strikes]

theorem mem_strikes (ht : t ∈ strikes h) : .tried t false ∈ h := by
  induction h using List.reverseRecOn with
  | nil => cases ht
  | append_singleton h m ih =>
    rw [strikes_append] at ht
    cases m with
    | counted s n => exact List.mem_append_left _ (ih ht)
    | tried c right =>
      cases right with
      | true => cases ht
      | false =>
        rcases List.mem_cons.mp ht with rfl | ht
        · exact List.mem_append_right _ (List.mem_singleton_self _)
        · exact List.mem_append_left _ (ih ht)

theorem recent_anti (hle : now ≤ now') : recent window l now' ≤ recent window l now := by
  refine List.countP_mono_left fun t _ ht => ?_
  rw [decide_eq_true_eq] at ht ⊢
  exact Nat.lt_of_le_of_lt hle ht

theorem recent_cons_le : recent window (c :: l) now ≤ recent window l now + 1 := by
  unfold recent
  rw [List.countP_cons]
  split <;> omega

theorem recent_le_cons : recent window l now ≤ recent window (c :: l) now := by
  unfold recent
  rw [List.countP_cons]
  exact Nat.le_add_right _ _

theorem recent_cons (hc : now < c + window) :
    recent window (c :: l) now = recent window l now + 1 := by
  unfold recent
  rw [List.countP_cons, if_pos (decide_eq_true hc)]

theorem recent_eq_zero (hl : ∀ c ∈ l, c + window ≤ now) : recent window l now = 0 := by
  refine List.countP_eq_zero.mpr fun c hc => ?_
  rw [decide_eq_true_eq, Nat.not_lt]
  exact hl c hc

theorem owing_append : Owing (h ++ [m]) ↔ ∃ t, m = .tried t false := by
  simp [Owing]

theorem not_owing_nil : ¬Owing [] := by
  rintro ⟨t, ht⟩
  cases ht

/-! ### Lawful histories -/

theorem lawful_nil : Lawful window limit [] := by
  intro p m q h
  cases p <;> cases h

theorem lawful_append (h : Lawful window limit p) (htime : ∀ m' ∈ p, m'.time ≤ m.time)
    (hm : Fair window limit p m) : Lawful window limit (p ++ [m]) := by
  intro a x b hsplit
  rcases List.eq_nil_or_concat b with rfl | ⟨b, y, rfl⟩
  · obtain ⟨rfl, hx⟩ := List.append_inj' hsplit rfl
    obtain rfl := (List.cons.inj hx).1
    exact ⟨htime, hm⟩
  · have hsplit' : p ++ [m] = (a ++ x :: b) ++ [y] := by simpa using hsplit
    obtain ⟨rfl, -⟩ := List.append_inj' hsplit' rfl
    exact h a x b rfl

theorem lawful_of_append (h : Lawful window limit (p ++ q)) : Lawful window limit p := by
  rintro a x b rfl
  exact h a x (b ++ q) (by simp)

/-- Of the wrong attempts from `lo` on, after which none was right, all are among the strikes of the
last window. -/
theorem wrongs_le_recent (h : Lawful window limit p) (hright : ∀ t, .tried t true ∈ p → t < lo)
    (hlo : now < lo + window) : wrongs lo hi p ≤ recent window (strikes p) now := by
  induction p using List.reverseRecOn with
  | nil => exact Nat.zero_le _
  | append_singleton p m ih =>
    have hbefore := ih (lawful_of_append h) fun t ht => hright t (List.mem_append_left _ ht)
    unfold wrongs at hbefore ⊢
    rw [List.countP_append, List.countP_singleton, strikes_append]
    cases m with
    | counted s n => simpa [wrongIn, strike] using hbefore
    | tried t right =>
      cases right with
      | true =>
        -- nothing before it was from `lo` on
        have ht := hright t (List.mem_append_right _ (List.mem_singleton_self _))
        have hnone : p.countP (wrongIn lo hi) = 0 := by
          refine List.countP_eq_zero.mpr fun m hm => ?_
          have hle : m.time ≤ t := (h p _ [] rfl).1 m hm
          cases m with
          | counted s n => exact Bool.false_ne_true
          | tried t' right =>
            have hout : ¬lo ≤ t' := Nat.not_le.mpr (Nat.lt_of_le_of_lt hle ht)
            simp [wrongIn, hout]
        simp [hnone, wrongIn]
      | false =>
        change _ ≤ recent window (t :: strikes p) now
        split
        · rename_i hin
          simp only [wrongIn, Bool.not_false, Bool.true_and, Bool.and_eq_true, decide_eq_true_eq]
            at hin
          rw [recent_cons (by omega)]
          exact Nat.add_le_add_right hbefore 1
        · exact Nat.le_trans hbefore recent_le_cons

/-- No window without a right attempt holds more wrong ones than the limit. -/
theorem wrongs_le_limit (h : Lawful window limit p)
    (hright : ∀ t, .tried t true ∈ p → t < lo ∨ lo + window ≤ t) :
    wrongs lo (lo + window) p ≤ limit := by
  induction p using List.reverseRecOn with
  | nil => exact Nat.zero_le _
  | append_singleton p m ih =>
    have hbefore := ih (lawful_of_append h) fun t ht => hright t (List.mem_append_left _ ht)
    unfold wrongs at hbefore ⊢
    rw [List.countP_append, List.countP_singleton]
    split
    · rename_i hin
      cases m with
      | counted s n => cases hin
      | tried t right =>
        simp only [wrongIn, Bool.and_eq_true, Bool.not_eq_true', decide_eq_true_eq] at hin
        obtain ⟨rfl, hlo, hhi⟩ := hin
        obtain ⟨htime, -, hfair, -⟩ := h p _ [] rfl
        have hbound := hfair rfl
        rw [recent_cons (by omega)] at hbound
        -- a right attempt before this one was made before the window
        have hwrongs : wrongs lo (lo + window) p ≤ recent window (strikes p) t := by
          refine wrongs_le_recent (lawful_of_append h) (fun t' ht' => ?_) hhi
          refine (hright t' (List.mem_append_left _ ht')).resolve_right fun hafter => ?_
          have hle : t' ≤ t := htime _ ht'
          omega
        exact Nat.le_trans (Nat.add_le_add_right hwrongs 1) hbound
    · exact hbefore

/-- A wrong attempt is counted before the next one is made; where as many as the limit were wrong in
the window that ends with this count, and none was right, no attempt is made in the window after
it. -/
theorem none_after_limit (h : Lawful window limit (p ++ .tried c false :: q))
    (ht : .tried t right ∈ q) :
    ∃ s n q', q = .counted s n :: q' ∧ ((∀ t, .tried t true ∈ p → t + window ≤ s) →
      limit ≤ wrongs (s + 1 - window) (s + 1) (p ++ [.tried c false]) → s + window ≤ t) := by
  obtain ⟨m, q, rfl⟩ := List.exists_cons_of_ne_nil (List.ne_nil_of_mem ht)
  have hsplit : p ++ .tried c false :: m :: q = (p ++ [.tried c false]) ++ m :: q := by simp
  rw [hsplit] at h
  cases m with
  | tried s r => exact absurd (owing_append.mpr ⟨c, rfl⟩) (h _ _ _ rfl).2.1
  | counted s n =>
    refine ⟨s, n, q, rfl, fun hright hlimit => ?_⟩
    have hcount : recent window (strikes (p ++ [.tried c false])) s ≤ n := (h _ _ _ rfl).2
    have hwrongs : wrongs (s + 1 - window) (s + 1) (p ++ [.tried c false]) ≤
        recent window (strikes (p ++ [.tried c false])) s := by
      refine wrongs_le_recent (lawful_of_append h) (fun t ht => ?_) (by omega)
      have hwindow := hright t (by simpa using ht)
      omega
    have hn : limit ≤ n := Nat.le_trans hlimit (Nat.le_trans hwrongs hcount)
    have hlater : Mark.tried t right ∈ q := by simpa using ht
    obtain ⟨a, b, rfl⟩ := List.append_of_mem hlater
    have hsplit' : (p ++ [.tried c false]) ++ .counted s n :: (a ++ .tried t right :: b) =
        (p ++ [.tried c false] ++ .counted s n :: a) ++ .tried t right :: b := by simp
    rw [hsplit'] at h
    refine (h _ _ _ rfl).2.2.2 s n ?_ hn
    exact List.mem_append_right _ List.mem_cons_self

end Livora.FailureWindows
