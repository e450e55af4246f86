import Livora.BalanceReports
import Livora.RoundingOrder

/-! The reported balance against the stroops that are there. It is printed to the nearest cent, and
so shows no more than there is exactly where its last half cent is rounded off. -/

namespace Livora.BalanceRounding

open DoubleRounding StoreBooks WalletBalance CentAmounts BalanceReports
open BackOffice (User)
open PinVerification (truthy)

/-! ### The nearest cent -/

/-- The stroops under a cent are less than half of one, or just half and the quotient is
rounded below it. -/
def RoundsDown (b : ℕ) : Prop :=
  b % 10 ^ 5 < 50000 ∨ b % 10 ^ 5 = 50000 ∧ fl ((b : ℚ) / 10 ^ 7) < b / 10 ^ 7

theorem abs_quotient_sub_le {b : ℕ} (hb : b < 2 ^ 53) :
    |fl ((b : ℚ) / 10 ^ 7) - b / 10 ^ 7| ≤ 6 / 10 ^ 8 := by
  have hcast : (b : ℚ) < 2 ^ 53 := by exact_mod_cast hb
  have hsmall : |(b : ℚ) / 10 ^ 7| < 2 ^ (30 : ℤ) := by
    rw [abs_of_nonneg (by positivity), div_lt_iff₀ (by norm_num)]
    exact hcast.trans (by norm_num)
  exact (abs_fl_sub_le_of_lt hsmall (by norm_num)).trans (by norm_num)

theorem shown_eq {b : ℕ} (hb : b < 2 ^ 53) :
    shown (some b) = (round (fl ((b : ℚ) / 10 ^ 7) * 100)).toNat := by
  have hread : fl (b : ℚ) = b := by
    have := fl_intCast (n := b) (by rw [Nat.abs_cast]; exact_mod_cast hb)
    simpa using this
  rw [shown, hread, toFixed2]

theorem abs_cents_sub_le {b c r : ℕ} (hb : b < 2 ^ 53) (hsplit : b = c * 10 ^ 5 + r) :
    |fl ((b : ℚ) / 10 ^ 7) * 100 - (c + r / 10 ^ 5)| ≤ 6 / 10 ^ 6 := by
  have hclose := abs_le.mp (abs_quotient_sub_le hb)
  have hcast : (b : ℚ) / 10 ^ 7 = (c + r / 10 ^ 5) / 100 := by
    rw [hsplit]
    push_cast
    ring
  generalize fl ((b : ℚ) / 10 ^ 7) = quotient at hclose ⊢
  rw [hcast] at hclose
  rw [abs_le]
  constructor <;> linarith [hclose.1, hclose.2]

theorem halfCent_eq {b c : ℕ} (hsplit : b = c * 10 ^ 5 + 50000) :
    (b : ℚ) / 10 ^ 7 * 100 = c + 1 / 2 := by
  rw [hsplit]
  push_cast
  ring

theorem round_quotient {b c r : ℕ} (hb : b < 2 ^ 53) (hsplit : b = c * 10 ^ 5 + r)
    (hr : r < 10 ^ 5) :
    round (fl ((b : ℚ) / 10 ^ 7) * 100) =
      if r < 50000 ∨ r = 50000 ∧ fl ((b : ℚ) / 10 ^ 7) < b / 10 ^ 7 then (c : ℤ) else c + 1 := by
  have hclose := abs_le.mp (abs_cents_sub_le hb hsplit)
  have hrest : (0 : ℚ) ≤ r := by positivity
  have hrest' : (r : ℚ) ≤ 99999 := by exact_mod_cast Nat.le_pred_of_lt hr
  rw [round_eq_iff]
  split_ifs with hdown
  · refine ⟨by push_cast; linarith [hclose.1], ?_⟩
    rcases hdown with hlow | ⟨rfl, hquotient⟩
    · have hlow' : (r : ℚ) ≤ 49999 := by exact_mod_cast Nat.le_pred_of_lt hlow
      push_cast
      linarith [hclose.2]
    · have := halfCent_eq hsplit
      push_cast
      linarith
  · refine ⟨?_, by push_cast; linarith [hclose.2]⟩
    obtain ⟨hlow, hhalf⟩ := not_or.mp hdown
    rcases eq_or_lt_of_le (not_lt.mp hlow) with rfl | hlt
    · have hquotient := not_lt.mp fun hlt => hhalf ⟨rfl, hlt⟩
      have := halfCent_eq hsplit
      push_cast
      linarith
    · have hlt' : (50001 : ℚ) ≤ r := by exact_mod_cast hlt
      push_cast
      linarith [hclose.1]

theorem shown_of_roundsDown {b : ℕ} (hb : b < 2 ^ 53) (h : RoundsDown b) :
    shown (some b) = b / 10 ^ 5 := by
  unfold RoundsDown at h
  rw [shown_eq hb, round_quotient hb (Nat.div_add_mod' b (10 ^ 5)).symm
    (Nat.mod_lt _ (by norm_num)), if_pos h, Int.toNat_natCast]

theorem shown_of_not_roundsDown {b : ℕ} (hb : b < 2 ^ 53) (h : ¬RoundsDown b) :
    shown (some b) = b / 10 ^ 5 + 1 := by
  unfold RoundsDown at h
  rw [shown_eq hb, round_quotient hb (Nat.div_add_mod' b (10 ^ 5)).symm
    (Nat.mod_lt _ (by norm_num)), if_neg h]
  rfl

/-- The service shows no more than the chain holds exactly where the balance is rounded down. -/
theorem shown_le_iff {b : ℕ} (hb : b < 2 ^ 53) : shown (some b) * 10 ^ 5 ≤ b ↔ RoundsDown b := by
  constructor
  · intro hle
    by_contra h
    rw [shown_of_not_roundsDown hb h] at hle
    omega
  · intro h
    rw [shown_of_roundsDown hb h]
    omega

/-! ### What is accepted against a balance -/

theorem parseCents_strictMono {m k : ℕ} (hm : (m : ℚ) / 100 < 2 ^ 39) (h : m < k) :
    parseCents m < parseCents k := by
  have hlow := abs_le.mp (abs_parseCents_sub_le (c := m) (k := 40)
    (by exact_mod_cast hm.trans (by norm_num)) (by norm_num))
  have hhigh := abs_le.mp (abs_parseCents_sub_le (c := m + 1) (k := 40)
    (by push_cast; norm_num at hm ⊢; linarith) (by norm_num))
  have hmono : parseCents (m + 1) ≤ parseCents k := by
    refine fl_mono (div_le_div_of_nonneg_right ?_ (by norm_num))
    exact_mod_cast h
  refine lt_of_lt_of_le ?_ hmono
  push_cast at hlow hhigh
  norm_num at hlow hhigh
  linarith

/-- `balance < finalAmount` is refused: what passes is no more than the cents of the balance. -/
theorem le_of_accepted {m k : ℕ} (hm : (m : ℚ) / 100 < 2 ^ 39) (h : ¬parseCents m < parseCents k) :
    k ≤ m :=
  not_lt.mp fun hlt => h (parseCents_strictMono hm hlt)

/-! ### The report of the wallet -/

variable {svc : Service} {up : Bool} {rates : String → Double} {w : World} {user : User}
    {wallet : String}

theorem shown_small {b : ℕ} (hb : b < 2 ^ 53) : (shown (some b) : ℚ) / 100 < 2 ^ 39 := by
  have hshown := (abs_le.mp (abs_shown_sub_le hb)).2
  have hcast : (b : ℚ) < 2 ^ 53 := by exact_mod_cast hb
  have hbound : (b : ℚ) / 10 ^ 5 < 2 ^ 37 := by
    rw [div_lt_iff₀ (by norm_num)]
    exact hcast.trans (by norm_num)
  norm_num at hshown hbound ⊢
  linarith

theorem balance_le_shown {m : ℕ} (huser : w.findUser user.id = some user)
    (hwallet : truthy user.walletAddress = some wallet) (hb : w.chain wallet < 2 ^ 53)
    (hamounts : ∀ row ∈ w.completedRedemptions user.id, 0 ≤ row.tokenAmount)
    (hseen : 0 < seen svc up w wallet) (hreport : balance svc up rates w user.id = .ok m) :
    m ≤ shown (some (w.chain wallet)) := by
  rw [balance_read huser hwallet, if_pos hseen, (seen_eq hseen).1] at hreport
  cases hreport
  refine toFixed2_rest_le ((shown_small hb).trans (by norm_num)) (roundedSum_nonneg fun a ha => ?_)
  obtain ⟨row, hrow, rfl⟩ := List.mem_map.mp ha
  exact hamounts row hrow

/-- Where its last half cent is rounded off, a balance is reported within the chain's, and what is
accepted against the report can be transferred. -/
theorem reports_within_chain (svc : Service) (up : Bool) (rates : String → Double) (w : World)
    (user : User) (wallet : String) (huser : w.findUser user.id = some user)
    (hwallet : truthy user.walletAddress = some wallet) (hb : w.chain wallet < 2 ^ 53)
    (hdown : RoundsDown (w.chain wallet))
    (hamounts : ∀ row ∈ w.completedRedemptions user.id, 0 ≤ row.tokenAmount) :
    (shown (some (w.chain wallet)) : ℚ) / 100 ≤ w.chain wallet / 10 ^ 7 ∧
      ∀ m, 0 < seen svc up w wallet → balance svc up rates w user.id = .ok m →
        (m : ℚ) / 100 ≤ w.chain wallet / 10 ^ 7 ∧
          ∀ k : ℕ, ¬parseCents m < parseCents k → k * 10 ^ 5 ≤ w.chain wallet := by
  have hshown := (shown_le_iff hb).mpr hdown
  have hcents {n : ℕ} (h : n * 10 ^ 5 ≤ w.chain wallet) : (n : ℚ) / 100 ≤
      w.chain wallet / 10 ^ 7 := by
    have hcast : (n : ℚ) * 10 ^ 5 ≤ w.chain wallet := by exact_mod_cast h
    rw [div_le_div_iff₀ (by norm_num) (by norm_num)]
    linarith
  refine ⟨hcents hshown, fun m hseen hreport => ?_⟩
  have hle := balance_le_shown huser hwallet hb hamounts hseen hreport
  have hwithin : m * 10 ^ 5 ≤ w.chain wallet := (Nat.mul_le_mul_right _ hle).trans hshown
  refine ⟨hcents hwithin, fun k hk => ?_⟩
  have hm : (m : ℚ) / 100 < 2 ^ 39 := by
    refine lt_of_le_of_lt ?_ (shown_small hb)
    have hcast : (m : ℚ) ≤ shown (some (w.chain wallet)) := by exact_mod_cast hle
    linarith
  exact (Nat.mul_le_mul_right _ (le_of_accepted hm hk)).trans hwithin

/-! ### A household with a few stroops, and one with none -/

theorem reports_within_chain_thousand :
    (shown (some 1000) : ℚ) / 100 ≤ (1000 : ℕ) / 10 ^ 7 :=
  (reports_within_chain sampleService true (fun _ => noRate)
    (sampleWorld [] [] 1000) household "wallet"
    rfl rfl (by decide) (.inl (by decide)) (by decide)).1

/-- Five thousandths of a token are shown as a cent, and a wallet without tokens shows the
estimate. -/
theorem reports_above_chain :
    shown (some 50000) = 1 ∧ (50000 : ℚ) / 10 ^ 7 < 1 / 100 ∧
      balance sampleService true (fun _ => noRate) (sampleWorld [] [] 50000) "household" = .ok 1 ∧
      balance sampleService true (fun _ => noRate)
        { sampleWorld [] [] 0 with books :=
          ⟨[], [], [⟨"friend", some "household", 5, "COMPLETED"⟩], []⟩ }
        "household" = .ok 500 := by
  refine ⟨by decide +kernel, by norm_num, by decide +kernel, by decide +kernel⟩

end Livora.BalanceRounding
