import Livora.RegistryBatches
import Livora.RegistryConsent

/-! Who is credited what by a weighed batch. The households are paid in equal shares, as often as
each is named, and the collector takes what the two divisions leave over, whoever else the collector
is. -/

namespace Livora.RegistryShares

open CheckedWords StellarXdr RegistryStorage RegistryContract RegistryBank RegistryRewards
open RegistryCalls RegistryEffects RegistryConservation RegistryConsent RegistryBatches
open TokenBank TransitionRuns

/-! ### The shares, with divisions rounded down -/

def batchTotal (rate : Symbol → ℤ) (entries : List (Symbol × I128)) : ℤ :=
  (entries.map fun e => e.2.val * rate e.1 / 1000).sum

def bpsShare (total bps : ℤ) : ℤ := total * bps / 10000

def householdShare (total bps : ℤ) (n : ℕ) : ℤ := (total - bpsShare total bps) / n

def collectorShare (total bps : ℤ) (n : ℕ) : ℤ :=
  if n = 0 then total else total - n * householdShare total bps n

theorem batchTotal_nonneg {rate : Symbol → ℤ} {entries : List (Symbol × I128)}
    (h : ∀ e ∈ entries, 0 ≤ e.2.val ∧ 0 ≤ rate e.1) : 0 ≤ batchTotal rate entries := by
  refine List.sum_nonneg fun x hx => ?_
  obtain ⟨e, he, rfl⟩ := List.mem_map.mp hx
  obtain ⟨hweight, hrate⟩ := h e he
  exact Int.ediv_nonneg (mul_nonneg hweight hrate) (by norm_num)

theorem weighedReward_eq {rate : Symbol → ℤ} {entries : List (Symbol × I128)}
    (h : ∀ e ∈ entries, 0 ≤ e.2.val ∧ 0 ≤ rate e.1) :
    weighedReward rate entries = batchTotal rate entries := by
  unfold weighedReward batchTotal
  congr 1
  refine List.map_congr_left fun e he => ?_
  obtain ⟨hweight, hrate⟩ := h e he
  exact Int.tdiv_eq_ediv_of_nonneg (mul_nonneg hweight hrate)

section Split

variable {total bps : ℤ} {n : ℕ}

theorem bpsShare_le (ht : 0 ≤ total) (hb : bps ≤ 10000) : bpsShare total bps ≤ total := by
  have hmul : total * bps ≤ total * 10000 := mul_le_mul_of_nonneg_left hb ht
  unfold bpsShare
  omega

theorem split_eq (ht : 0 ≤ total) (hb : 0 ≤ bps) (hb' : bps ≤ 10000) (hn : n ≠ 0) :
    split total bps n = (householdShare total bps n, collectorShare total bps n) := by
  have hshare : (total * bps).tdiv 10000 = bpsShare total bps :=
    Int.tdiv_eq_ediv_of_nonneg (mul_nonneg ht hb)
  have hrest : 0 ≤ total - bpsShare total bps := sub_nonneg.mpr (bpsShare_le ht hb')
  have hper : (total - bpsShare total bps).tdiv n = householdShare total bps n :=
    Int.tdiv_eq_ediv_of_nonneg hrest
  simp only [split, if_neg hn, hshare, hper, collectorShare, Prod.mk.injEq, true_and]
  ring

theorem split_eq_zero : split total bps 0 = (0, total) := if_pos rfl

theorem collectorShare_bounds (hn : 0 < n) :
    bpsShare total bps ≤ collectorShare total bps n ∧
      collectorShare total bps n < bpsShare total bps + n := by
  have hpos : (0 : ℤ) < n := by exact_mod_cast hn
  have hdiv := Int.mul_ediv_add_emod (total - bpsShare total bps) n
  have hmod := Int.emod_nonneg (total - bpsShare total bps) hpos.ne'
  have hlt := Int.emod_lt_of_pos (total - bpsShare total bps) hpos
  rw [collectorShare, if_neg hn.ne', householdShare]
  constructor <;> linarith

end Split

/-! ### What is minted to an address -/

section Minted

variable {x target : Address} {n : ℤ} {hhs : List Address}

theorem mintedTo_positiveMint (hn : 0 ≤ n) :
    mintedTo x (positiveMint target n) = if target = x then n else 0 := by
  by_cases h : 0 < n
  · rw [positiveMint_of_pos h]
    exact add_zero _
  · have hzero : n = 0 := by omega
    rw [positiveMint_of_not_pos h, hzero, ite_self]
    rfl

theorem mintedTo_households (hn : 0 ≤ n) :
    mintedTo x (hhs.flatMap fun hh => positiveMint hh n) = hhs.count x * n := by
  induction hhs with
  | nil => simp [mintedTo]
  | cons hh hhs ih =>
    rw [List.flatMap_cons, mintedTo_append, mintedTo_positiveMint hn, ih, List.count_cons]
    by_cases h : hh = x
    · simp only [h, if_true, beq_self_eq_true]
      push_cast
      ring
    · simp [h]

end Minted

/-! ### A batch that is registered -/

section Registered

variable {host : Host} {s s' : State} {i : Invocation} {a : Weighed} {is : List Invocation}

def entries (a : Weighed) : List (Symbol × I128) := a.materialCodes.toList.zip a.weightsGrams.toList

def totalOf (s : State) (a : Weighed) : ℤ := batchTotal (effectiveRate s) (entries a)

structure Nonnegative (s : State) (a : Weighed) : Prop where
  weights : ∀ w ∈ a.weightsGrams.toList, 0 ≤ w.val
  rates : ∀ code ∈ a.materialCodes.toList, 0 ≤ effectiveRate s code

theorem Nonnegative.entries (h : Nonnegative s a) :
    ∀ e ∈ entries a, 0 ≤ e.2.val ∧ 0 ≤ effectiveRate s e.1 := fun _ he =>
  ⟨h.weights _ (List.of_mem_zip he).2, h.rates _ (List.of_mem_zip he).1⟩

structure Credits (s s' : State) (a : Weighed) (total bps : ℤ) (n : ℕ) : Prop where
  balances : ∀ x, balanceOf s' x = balanceOf s x +
    (a.households.toList.count x * householdShare total bps n +
      if a.collector = x then collectorShare total bps n else 0)
  alone : n = 0 → collectorShare total bps n = total
  least : 0 < n → bpsShare total bps ≤ collectorShare total bps n
  most : 0 < n → collectorShare total bps n < bpsShare total bps + n
  gained : ∑ x ∈ participants (.registerBatchWeighed a), (balanceOf s' x - balanceOf s x) = total
  issued : supply s' = supply s + total

theorem weighedTotal_eq (h : Nonnegative s a) : weighedTotal s a = totalOf s a :=
  weighedReward_eq h.entries

theorem mintedTo_weighed (h : Nonnegative s a) (hb : 0 ≤ shareBps s) (hb' : shareBps s ≤ 10000)
    (x : Address) :
    mintedTo x (postings s (.registerBatchWeighed a)) =
      a.households.toList.count x *
          householdShare (totalOf s a) (shareBps s) a.households.toList.length +
        if a.collector = x then
          collectorShare (totalOf s a) (shareBps s) a.households.toList.length
        else 0 := by
  have ht : 0 ≤ totalOf s a := batchTotal_nonneg h.entries
  have hshares : weighedShares s a =
      split (totalOf s a) (shareBps s) a.households.toList.length := by
    rw [weighedShares, weighedTotal_eq h]
  obtain ⟨hper, hcoll⟩ := split_nonneg a.households.toList.length ht hb hb'
  rw [postings, mintedTo_append, hshares, mintedTo_households hper, mintedTo_positiveMint hcoll]
  by_cases hn : a.households.toList.length = 0
  · have hnone : a.households.toList = [] := List.eq_nil_of_length_eq_zero hn
    rw [hnone, List.count_nil, List.length_nil, split_eq_zero]
    simp [collectorShare]
  · rw [split_eq ht hb hb' hn]

/-- In every reachable state an accepted weighed batch without negative weights and rates credits
each mention of a household its share and the collector the rest. -/
theorem weighed_credits (hrun : run (step host) State.empty is = some s)
    (h : Accepted host s i s') (hc : i.call = .registerBatchWeighed a) (hn : Nonnegative s a) :
    Credits s s' a (totalOf s a) (shareBps s) a.households.toList.length := by
  have hbps := shareBps_run hrun
  have hmint := mintedTo_weighed hn (by omega) (by omega)
  have hbatch : batch? i.call = some a.batchId := by rw [hc]; rfl
  have hminted : minted (postings s i.call) = totalOf s a := by
    rw [hc, minted_weighed s a (by omega) (by omega), weighedTotal_eq hn]
    exact max_eq_left (batchTotal_nonneg hn.entries)
  obtain ⟨hsupply, hgains⟩ := registration_gains h hbatch
  rw [hminted] at hsupply hgains
  rw [hc] at hgains
  refine ⟨fun x => ?_, fun h0 => if_pos h0, fun h0 => (collectorShare_bounds h0).1,
    fun h0 => (collectorShare_bounds h0).2, hgains, by omega⟩
  have honly : OnlyMints (postings s i.call) := by rw [hc]; exact onlyMints_weighed s a
  rw [accepted_balance_of_mints h honly, hc, hmint]

theorem mentions_fit : [alice, bob, alice].length < 2 ^ 32 := by decide

theorem pet_short : "PET".length ≤ 32 := by decide

/-- A collector who is one of two equal mentions of a household, and an odd total. -/
def shared : Weighed :=
  { caller := admin, batchId := BytesN.fill 32 7, ipfsCid := "receipt", collector := alice,
    households := ⟨[alice, bob, alice], mentions_fit⟩,
    materialCodes := .single ⟨"PET", pet_short⟩,
    weightsGrams := .single (i128 7) }

theorem weighed_credits_shared :
    let s := after sampleHost State.empty [deployed]
    ∃ s', Accepted sampleHost s (signedBy admin (.registerBatchWeighed shared)) s' ∧
      Credits s s' shared (totalOf s shared) (shareBps s) 3 := by
  intro s
  obtain ⟨s', h⟩ := accepts_iff.mp (show accepts sampleHost s
    (signedBy admin (.registerBatchWeighed shared)) = true by decide +kernel)
  have hnonneg : Nonnegative s shared := ⟨by decide +kernel, by decide +kernel⟩
  exact ⟨s', h, weighed_credits (run_eq_after _ _ _) h rfl hnonneg⟩

end Registered

end Livora.RegistryShares
