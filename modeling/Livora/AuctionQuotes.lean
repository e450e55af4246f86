import Livora.CentAmounts
import Livora.DebitBounds

/-! What a bid promises the household against what the completion pays it. Both sum the same
weights, but a material that the bid has no price for counts nothing in the quote and one token a
kilogram in the payment. -/

namespace Livora.AuctionQuotes

open DoubleRounding RewardStrategies EffectPrograms EffectPrograms.Action
open CollectionBooks CollectionBooks.World CollectionServices CollectionServices.CollectionAuctionService
open StoreBooks (storedAmount)
open CentAmounts (lt_of_fl_lt abs_storedAmount_lt storedAmount_toFixed)
open PinVerification (VerifyPinDto weightsOf rewardOf)
open DebitBounds
open CollectionRaces (sampleService sampleRow sampleWorld answer)

variable {svc : Service} {items rates : NumberRecord} {mat : String}

/-! ### The sums of the quote and of the payment -/

/-- The bid has a price for the material, under its name or under its name in capitals. -/
def Prices (svc : Service) (rates : NumberRecord) (mat : String) : Prop :=
  rateUnder rates mat ≠ none ∨ rateUnder rates (svc.toUpperCase mat) ≠ none

instance (svc : Service) (rates : NumberRecord) (mat : String) : Decidable (Prices svc rates mat) :=
  inferInstanceAs (Decidable (_ ∨ _))

def Priced (svc : Service) (items rates : NumberRecord) : Prop :=
  ∀ entry ∈ items, entry.2.val ≠ 0 → Prices svc rates entry.1

instance (svc : Service) (items rates : NumberRecord) : Decidable (Priced svc items rates) :=
  inferInstanceAs (Decidable (∀ entry ∈ items, _ → _))

theorem bidRate_of_prices (h : Prices svc rates mat) :
    bidRate svc rates mat = rateOf svc.toUpperCase rates mat := by
  unfold bidRate rateOf
  cases hname : rateUnder rates mat with
  | some rate => rfl
  | none =>
    cases hcapitals : rateUnder rates (svc.toUpperCase mat) with
    | some rate => rfl
    | none => exact absurd h (by simp [Prices, hname, hcapitals])

theorem bidRate_unpriced (h : ¬Prices svc rates mat) : bidRate svc rates mat = 0 := by
  simp only [Prices, not_or, not_not] at h
  rw [bidRate, h.1, h.2]
  rfl

theorem rateOf_unpriced (h : ¬Prices svc rates mat) : rateOf svc.toUpperCase rates mat = 1 := by
  simp only [Prices, not_or, not_not] at h
  rw [rateOf, h.1, h.2]
  rfl

def quoted (svc : Service) (rates : NumberRecord) (entry : String × Double) : ℚ :=
  fl (entry.2.val * bidRate svc rates entry.1)

theorem quoted_eq (h : entry.2.val ≠ 0 → Prices svc rates entry.1) :
    quoted svc rates entry = subtotalOf svc.toUpperCase rates entry := by
  unfold quoted subtotalOf
  by_cases hweight : entry.2.val = 0
  · rw [hweight, zero_mul, zero_mul]
  · rw [bidRate_of_prices (h hweight)]

theorem totalEstimated_eq (h : Priced svc items rates) :
    totalEstimated svc items rates = totalValue svc.toUpperCase items rates :=
  List.foldl_ext _ _ _ fun total entry hentry =>
    congrArg (fun x => fl (total + x)) (quoted_eq (h entry hentry))

/-! ### A material without a price -/

def sumFrom (a : ℚ) (l : List ℚ) : ℚ := l.foldl (fun total x => fl (total + x)) a

theorem le_sumFrom {l : List ℚ} {a : ℚ} (ha : fl a = a) (hl : ∀ x ∈ l, 0 ≤ x) :
    a ≤ sumFrom a l := by
  induction l generalizing a with
  | nil => exact le_rfl
  | cons x l ih =>
    have hx : a ≤ fl (a + x) := by
      have := fl_mono (le_add_of_nonneg_right (hl x List.mem_cons_self) : a ≤ a + x)
      rwa [ha] at this
    exact hx.trans (ih (fl_idempotent _) fun y hy => hl y (List.mem_cons_of_mem x hy))

theorem sumFrom_le {γ : Type} {l : List γ} {p q : γ → ℚ} {a b : ℚ} (hpq : ∀ e ∈ l, q e ≤ p e)
    (hab : b ≤ a) :
    sumFrom b (l.map q) ≤ sumFrom a (l.map p) := by
  induction l generalizing a b with
  | nil => exact hab
  | cons e l ih =>
    exact ih (fun x hx => hpq x (List.mem_cons_of_mem e hx))
      (fl_mono (add_le_add hab (hpq e List.mem_cons_self)))

theorem abs_sum_sub_le {a x : ℚ} (h0 : 0 ≤ a + x) (h : fl (a + x) < 2 ^ 36) :
    |fl (a + x) - (a + x)| ≤ 1 / 2 ^ 17 := by
  have hlt := lt_of_fl_lt (x := a + x) (k := 36) (by norm_num) (by exact_mod_cast h)
  have herr := abs_fl_sub_le_of_lt (x := a + x) (k := 37) (by rw [abs_of_nonneg h0]; exact hlt)
    (by norm_num)
  exact herr.trans (by norm_num)

theorem gap_step {a b g x y : ℚ} (hb : 0 ≤ b) (hx : 0 ≤ x) (hxy : x ≤ y) (hab : b ≤ a)
    (hgap : b + g ≤ a)
    (h : fl (a + y) < 2 ^ 36) : fl (b + x) + (g + (y - x) - 1 / 2 ^ 16) ≤ fl (a + y) := by
  have hle : fl (b + x) ≤ fl (a + y) := fl_mono (add_le_add hab hxy)
  have hlow := (abs_le.mp (abs_sum_sub_le (by linarith) h)).1
  have hhigh := (abs_le.mp (abs_sum_sub_le (a := b) (x := x) (by linarith) (hle.trans_lt h))).2
  norm_num at hlow hhigh ⊢
  linarith

theorem gap_sumFrom {γ : Type} {l : List γ} {p q : γ → ℚ} {a b g : ℚ} (hq : ∀ e ∈ l, 0 ≤ q e)
    (hpq : ∀ e ∈ l, q e ≤ p e) (hb : 0 ≤ b) (hab : b ≤ a) (hgap : b + g ≤ a)
    (hsum : sumFrom a (l.map p) < 2 ^ 36) :
    sumFrom b (l.map q) + (g - l.length / 2 ^ 16) ≤ sumFrom a (l.map p) := by
  induction l generalizing a b g with
  | nil =>
    simp only [List.map_nil, List.length_nil, Nat.cast_zero, zero_div, sub_zero]
    exact hgap
  | cons e l ih =>
    have hqe := hq e List.mem_cons_self
    have hpqe := hpq e List.mem_cons_self
    have hrest : ∀ x ∈ l.map p, 0 ≤ x := by
      intro x hx
      obtain ⟨y, hy, rfl⟩ := List.mem_map.mp hx
      exact (hq y (List.mem_cons_of_mem e hy)).trans (hpq y (List.mem_cons_of_mem e hy))
    have hlarge : fl (a + p e) < 2 ^ 36 := (le_sumFrom (fl_idempotent _) hrest).trans_lt hsum
    have hone := gap_step hb hqe hpqe hab hgap hlarge
    have hnext := ih (g := g - 1 / 2 ^ 16) (fun x hx => hq x (List.mem_cons_of_mem e hx))
      (fun x hx => hpq x (List.mem_cons_of_mem e hx)) (fl_nonneg (by linarith))
      (fl_mono (add_le_add hab hpqe)) (by linarith) hsum
    rw [List.length_cons, Nat.cast_add, Nat.cast_one, add_div]
    change sumFrom (fl (b + q e)) (l.map q) + _ ≤ sumFrom (fl (a + p e)) (l.map p)
    linarith

theorem sumFrom_nonneg {l : List ℚ} {a : ℚ} (ha : 0 ≤ a) (hl : ∀ x ∈ l, 0 ≤ x) :
    0 ≤ sumFrom a l := by
  induction l generalizing a with
  | nil => exact ha
  | cons x l ih =>
    exact ih (fl_nonneg (add_nonneg ha (hl x List.mem_cons_self)))
      fun y hy => hl y (List.mem_cons_of_mem x hy)

theorem gap_left_out {γ : Type} {l m : List γ} {e : γ} {p q : γ → ℚ}
    (hq : ∀ x ∈ l ++ e :: m, 0 ≤ q x) (hpq : ∀ x ∈ l ++ e :: m, q x ≤ p x)
    (hsum : sumFrom 0 ((l ++ e :: m).map p) < 2 ^ 36) :
    sumFrom 0 ((l ++ e :: m).map q) + (p e - q e - (m.length + 1) / 2 ^ 16) ≤
      sumFrom 0 ((l ++ e :: m).map p) := by
  have split (f : γ → ℚ) : sumFrom 0 ((l ++ e :: m).map f) =
      sumFrom (fl (sumFrom 0 (l.map f) + f e)) (m.map f) := by
    rw [List.map_append, List.map_cons]
    exact List.foldl_append ..
  have hl (x : γ) (hx : x ∈ l) : x ∈ l ++ e :: m := List.mem_append_left _ hx
  have hm (x : γ) (hx : x ∈ m) : x ∈ l ++ e :: m :=
    List.mem_append_right _ (List.mem_cons_of_mem e hx)
  have he : e ∈ l ++ e :: m := List.mem_append_right _ List.mem_cons_self
  rw [split] at hsum ⊢
  rw [split]
  have hbefore : sumFrom 0 (l.map q) ≤ sumFrom 0 (l.map p) :=
    sumFrom_le (fun x hx => hpq x (hl x hx)) le_rfl
  have hstart : 0 ≤ sumFrom 0 (l.map q) := by
    refine sumFrom_nonneg le_rfl fun x hx => ?_
    obtain ⟨y, hy, rfl⟩ := List.mem_map.mp hx
    exact hq y (hl y hy)
  have hlarge : fl (sumFrom 0 (l.map p) + p e) < 2 ^ 36 := by
    refine (le_sumFrom (fl_idempotent _) fun x hx => ?_).trans_lt hsum
    obtain ⟨y, hy, rfl⟩ := List.mem_map.mp hx
    exact (hq y (hm y hy)).trans (hpq y (hm y hy))
  have hone := gap_step (g := 0) hstart (hq e he) (hpq e he) hbefore (by linarith) hlarge
  have hrest := gap_sumFrom (g := p e - q e - 1 / 2 ^ 16) (fun x hx => hq x (hm x hx))
    (fun x hx => hpq x (hm x hx)) (fl_nonneg (add_nonneg hstart (hq e he)))
    (fl_mono (add_le_add hbefore (hpq e he))) (by linarith) hsum
  rw [add_div]
  linarith

/-- Every weight is one that a request may be created with, no rate is negative, and the materials
are not so many that their roundings add up. -/
structure Ordinary (items rates : NumberRecord) : Prop where
  weights : ∀ entry ∈ items, 1 / 2 ≤ entry.2.val
  rates : ∀ entry ∈ rates, 0 ≤ entry.2.val
  few : items.length ≤ 2 ^ 10

theorem rateUnder_nonneg (h : ∀ entry ∈ rates, 0 ≤ entry.2.val) :
    ∀ r ∈ rateUnder rates mat, 0 ≤ r := by
  intro r hr
  obtain ⟨hfound, -⟩ := Option.mem_filter_iff.mp hr
  obtain ⟨d, hd, rfl⟩ := Option.map_eq_some_iff.mp hfound
  obtain ⟨l, l', hl, -⟩ := List.lookup_eq_some_iff.mp hd
  exact h (mat, d) (by simp [hl])

theorem bidRate_nonneg (h : ∀ entry ∈ rates, 0 ≤ entry.2.val) : 0 ≤ bidRate svc rates mat := by
  unfold bidRate
  cases hname : rateUnder rates mat with
  | some rate => exact rateUnder_nonneg h rate hname
  | none =>
    cases hcapitals : rateUnder rates (svc.toUpperCase mat) with
    | some rate => exact rateUnder_nonneg h rate hcapitals
    | none => exact le_rfl

theorem quoted_nonneg {entry : String × Double} (h : Ordinary items rates)
    (hentry : entry ∈ items) :
    0 ≤ quoted svc rates entry :=
  fl_nonneg (mul_nonneg (by linarith [h.weights entry hentry]) (bidRate_nonneg h.rates))

theorem quoted_le {entry : String × Double} (h : Ordinary items rates) (hentry : entry ∈ items) :
    quoted svc rates entry ≤ subtotalOf svc.toUpperCase rates entry := by
  by_cases hprices : Prices svc rates entry.1
  · rw [quoted_eq fun _ => hprices]
  · rw [quoted, bidRate_unpriced hprices, mul_zero, fl_zero, subtotalOf, rateOf_unpriced hprices,
      mul_one]
    exact fl_nonneg (by linarith [h.weights entry hentry])

theorem totalEstimated_eq_sumFrom :
    totalEstimated svc items rates = sumFrom 0 (items.map (quoted svc rates)) := by
  rw [sumFrom, List.foldl_map]
  rfl

theorem totalValue_eq_sumFrom :
    totalValue svc.toUpperCase items rates =
      sumFrom 0 (items.map (subtotalOf svc.toUpperCase rates)) := by
  rw [sumFrom, List.foldl_map]
  rfl

theorem totalEstimated_le (h : Ordinary items rates) :
    totalEstimated svc items rates ≤ totalValue svc.toUpperCase items rates := by
  rw [totalEstimated_eq_sumFrom, totalValue_eq_sumFrom]
  exact sumFrom_le (fun entry hentry => quoted_le h hentry) le_rfl

theorem totalEstimated_nonneg (h : Ordinary items rates) : 0 ≤ totalEstimated svc items rates := by
  rw [totalEstimated_eq_sumFrom]
  refine le_sumFrom fl_zero fun x hx => ?_
  obtain ⟨entry, hentry, rfl⟩ := List.mem_map.mp hx
  exact quoted_nonneg h hentry

theorem totalEstimated_gap (h : Ordinary items rates) (hunpriced : ¬Priced svc items rates)
    (hvalue : totalValue svc.toUpperCase items rates < 2 ^ 36) :
    totalEstimated svc items rates + 48 / 100 ≤ totalValue svc.toUpperCase items rates := by
  simp only [Priced, not_forall] at hunpriced
  obtain ⟨entry, hentry, -, hprices⟩ := hunpriced
  obtain ⟨before, after, rfl⟩ := List.append_of_mem hentry
  rw [totalValue_eq_sumFrom] at hvalue
  have hnonneg : ∀ e ∈ before ++ entry :: after, 0 ≤ quoted svc rates e :=
    fun e he => quoted_nonneg h he
  have hgap := gap_left_out hnonneg (fun e he => quoted_le h he) hvalue
  have hzero : quoted svc rates entry = 0 := by
    rw [quoted, bidRate_unpriced hprices, mul_zero, fl_zero]
  have hweight : subtotalOf svc.toUpperCase rates entry = entry.2.val := by
    rw [subtotalOf, rateOf_unpriced hprices, mul_one, fl_of_representable entry.2.representable]
  have hhalf := h.weights entry hentry
  have hfew : ((after.length : ℚ) + 1) / 2 ^ 16 ≤ 2 / 100 := by
    have hlength := h.few
    rw [List.length_append, List.length_cons] at hlength
    have hcast : ((after.length : ℚ) + 1) ≤ 2 ^ 10 := by
      exact_mod_cast (by omega : after.length + 1 ≤ 2 ^ 10)
    exact (div_le_div_of_nonneg_right hcast (by positivity)).trans (by norm_num)
  rw [totalEstimated_eq_sumFrom, totalValue_eq_sumFrom]
  rw [hzero, hweight] at hgap
  linarith

/-! ### From the bid to the completion -/

/-- Each call is answered by the world as everybody else has left it by then. -/
def amid (worlds : ℕ → World) (outcomes : ℕ → Outcome) (n : ℕ) (i : Op) :
    Except Failure (Reply i) × ℕ :=
  ((worlds n).reply i (outcomes n), n + 1)

/-- A submission has answered with the bid, and read the items in the request. -/
def QuotedOn (svc : Service) (items : NumberRecord) (bid : AcopioBid) : Prop :=
  ∃ worlds outcomes centerId proposedRates submitted,
    (exec (amid worlds outcomes) 0 (submitBid svc centerId bid.requestId proposedRates)).1 =
      .ok bid ∧
      (worlds 0).findRequest bid.requestId = some submitted ∧ submitted.itemsEstimated = items

section Submission

variable {worlds : ℕ → World} {outcomes : ℕ → Outcome} {n : ℕ} {bid : AcopioBid} {offer : Offer}
  {centerId requestId : String} {proposedRates : NumberRecord} {request : CollectionRequest}

theorem bid_of_storeBid (h : (exec (amid worlds outcomes) n (storeBid centerId requestId offer)).1 =
    .ok bid) :
    ∃ id request center, offer.bid id request center = some bid := by
  obtain ⟨existing, -, h⟩ := exec_bind_eq_ok.mp h
  cases existing with
  | some existingBid =>
    have hstored : (worlds (n + 1)).reoffered existingBid.id offer = some bid :=
      (deliverSome_ok h).2
    obtain ⟨old, -, hbid⟩ := Option.bind_eq_some_iff.mp hstored
    exact ⟨_, _, _, hbid⟩
  | none =>
    have hoffered : (worlds (n + 1)).offered (outcomes (n + 1)).id requestId centerId offer =
        some bid :=
      (deliverSome_ok h).2
    unfold offered at hoffered
    split at hoffered
    · cases hoffered
    · exact ⟨_, _, _, hoffered⟩

theorem bid_of_submitOpen
    (h : (exec (amid worlds outcomes) n
      (submitOpen svc centerId requestId proposedRates request)).1 = .ok bid) :
    ∃ rates id request' center, (offerOf svc request.itemsEstimated rates).bid id request' center =
      some bid := by
  obtain ⟨-, -, h⟩ := exec_bind_eq_ok.mp h
  obtain ⟨rates, -, h⟩ := exec_bind_eq_ok.mp h
  obtain ⟨stored, hstored, h⟩ := exec_bind_eq_ok.mp h
  obtain ⟨-, -, h⟩ := exec_bind_eq_ok.mp h
  obtain ⟨-, -, h⟩ := exec_bind_eq_ok.mp h
  cases h
  exact ⟨rates, bid_of_storeBid hstored⟩

theorem QuotedOn.eco (h : QuotedOn svc items bid) :
    storedAmount (share (totalEstimated svc items bid.proposedRates) (25 / 100)) =
      some bid.totalEstimatedEco := by
  obtain ⟨worlds, outcomes, centerId, proposedRates, submitted, h, hfound, rfl⟩ := h
  obtain ⟨found, hread, h⟩ := exec_bind_eq_ok.mp h
  obtain rfl : (worlds 0).findRequest bid.requestId = found :=
    (PinVerification.Delivery.answer_ok hread).2
  rw [hfound] at h
  dsimp only at h
  split at h
  · split at h
    · obtain ⟨rates, id, request, center, hbid⟩ := bid_of_submitOpen h
      rw [(Offer.bid_eq hbid).2.2.2.1]
      obtain ⟨penn, -, hbid⟩ := Option.bind_eq_some_iff.mp hbid
      obtain ⟨eco, heco, hbid⟩ := Option.bind_eq_some_iff.mp hbid
      cases hbid
      exact heco
    · cases h
  · cases h

end Submission

section Requests

variable {bid : AcopioBid} {accepted : CollectionRequest} {row : PinVerification.CollectionRequest}
  {dto : VerifyPinDto}

/-- The household has selected the bid, and the request still has the items that were quoted. -/
structure Bargain (svc : Service) (bid : AcopioBid) (accepted : CollectionRequest) : Prop where
  quoted : QuotedOn svc accepted.itemsEstimated bid
  selected : ∃ w : World, w.selected accepted.id bid = some accepted

/-- What the completion pays the household is what the bid has promised it. -/
def Paid (svc : Service) (row : PinVerification.CollectionRequest) (dto : VerifyPinDto)
    (bid : AcopioBid) : Prop :=
  storedAmount (rewardOf svc.toService row dto).householdAmount = some bid.totalEstimatedEco

instance (svc : Service) (row : PinVerification.CollectionRequest) (dto : VerifyPinDto)
    (bid : AcopioBid) :
    Decidable (Paid svc row dto bid) :=
  inferInstanceAs (Decidable (_ = _))

theorem agreedRates_of_bargain (h : Bargain svc bid accepted) :
    accepted.agreedRates = some bid.proposedRates := by
  obtain ⟨w, hselected⟩ := h.selected
  obtain ⟨-, -, hchanged⟩ := Option.bind_eq_some_iff.mp hselected
  obtain ⟨old, -, happly⟩ := Option.bind_eq_some_iff.mp hchanged
  cases happly
  rfl

theorem householdAmount_eq (hstandard : row.isDonation = false)
    (hdto : weightsOf row dto = row.itemsEstimated) :
    (rewardOf svc.toService row dto).householdAmount =
      share (totalValue svc.toUpperCase row.itemsEstimated row.agreedRates) (25 / 100) := by
  rw [rewardOf, hstandard, hdto]
  rfl

theorem toFixed_inj {x y stored : ℚ} (hx : 0 ≤ toFixed x 2) (hy : 0 < toFixed y 2)
    (hsx : storedAmount (toFixed x 2) = some stored)
    (hsy : storedAmount (toFixed y 2) = some stored) :
    toFixed x 2 = toFixed y 2 := by
  obtain ⟨m, hm, hstored⟩ := storedAmount_toFixed hy hsy
  rcases hx.lt_or_eq with hpos | hzero
  · obtain ⟨k, hk, hstored'⟩ := storedAmount_toFixed hpos hsx
    rw [hk, hm, ← hstored, hstored']
  · have hnone : storedAmount 0 = some 0 := by decide +kernel
    rw [← hzero, hnone] at hsx
    cases hsx
    rw [← hzero, hm, ← hstored, fl_zero]

theorem priced_of_paid (h : Ordinary items rates) {eco : ℚ}
    (hquote : storedAmount (share (totalEstimated svc items rates) (25 / 100)) = some eco)
    (hpaid : storedAmount (share (totalValue svc.toUpperCase items rates) (25 / 100)) = some eco) :
    Priced svc items rates := by
  by_contra hunpriced
  have hestimated : 0 ≤ totalEstimated svc items rates := totalEstimated_nonneg h
  have hle : totalEstimated svc items rates ≤ totalValue svc.toUpperCase items rates :=
    totalEstimated_le h
  have hvalue := hestimated.trans hle
  have hpayment := abs_le.mp (abs_share_sub_le (r := 25 / 100) hvalue (by norm_num) (by norm_num))
  have hpromise :=
    abs_le.mp (abs_share_sub_le (r := 25 / 100) hestimated (by norm_num) (by norm_num))
  have hnonneg := share_nonneg (r := 25 / 100) hvalue (by norm_num)
  have hlarge : totalValue svc.toUpperCase items rates < 2 ^ 36 := by
    rcases hnonneg.lt_or_eq with hpos | hzero
    · obtain ⟨m, hm, hstored⟩ := storedAmount_toFixed hpos hpaid
      have hcolumn := (abs_lt.mp (abs_storedAmount_lt hpaid)).2
      have hread := abs_fl_sub_le_of_lt (x := (m : ℚ) / 100) (k := 34)
        (by rw [abs_of_nonneg (by positivity), ← hstored]; exact hcolumn.trans (by norm_num))
          (by norm_num)
      have hread := (abs_le.mp hread).2
      rw [← hm, ← hstored] at hread
      change share _ _ - eco ≤ _ at hread
      norm_num at hread hpayment ⊢
      linarith
    · rw [← hzero] at hpayment
      norm_num at hpayment ⊢
      linarith
  have hgap := totalEstimated_gap h hunpriced hlarge
  have hmore : share (totalEstimated svc items rates) (25 / 100) <
      share (totalValue svc.toUpperCase items rates) (25 / 100) := by
    norm_num at hpayment hpromise hlarge hgap
    linarith
  have hleast := share_nonneg (r := 25 / 100) hestimated (by norm_num)
  exact hmore.ne (toFixed_inj hleast (hleast.trans_lt hmore) hquote hpaid)

/-- The household is paid what the bid has promised where the bid has a price for all that it
brings; and, as long as weights and rates are ordinary, only there. -/
theorem paid_iff_priced (h : Bargain svc bid accepted) (hterms : SameTerms accepted row)
    (hstandard : row.isDonation = false) (hdto : weightsOf row dto = row.itemsEstimated) :
    (Priced svc row.itemsEstimated bid.proposedRates → Paid svc row dto bid) ∧
      (Ordinary row.itemsEstimated bid.proposedRates → Paid svc row dto bid →
        Priced svc row.itemsEstimated bid.proposedRates) := by
  have hrates : row.agreedRates = bid.proposedRates := by
    rw [hterms.rates, agreedRates_of_bargain h, Option.getD_some]
  have hquote := h.quoted.eco
  rw [← hterms.items] at hquote
  unfold Paid
  rw [householdAmount_eq hstandard hdto, hrates]
  constructor
  · intro hpriced
    rw [← totalEstimated_eq hpriced]
    exact hquote
  · intro hordinary hpaid
    exact priced_of_paid hordinary hquote hpaid

end Requests

/-! ### An auction for two materials -/

def numbers (entries : List (String × ℚ)) : NumberRecord :=
  entries.filterMap fun entry => (Double.ofRat? entry.2).map fun number => (entry.1, number)

def auctionRow : CollectionRequest :=
  { sampleRow with
    status := .auctionActive, assignmentMode := .auction, assignedCenterId :=
      none, agreedRates := none
    itemsEstimated := numbers [("PET", 10), ("CARTON", 10)] }

/-- The bid of a centre with these rates, five tokens of it for the household. -/
def offeredBid (rates : NumberRecord) : AcopioBid :=
  ⟨"id", "request", "center", rates, 20, 5, .pending⟩

def soldRow (rates : NumberRecord) : CollectionRequest :=
  { auctionRow with
    status := .auctionAssigned, assignedCenterId := some "center", agreedRates := some rates
    updatedAt := minutes 60, auctioned := true }

def measuredRow (rates : NumberRecord) : PinVerification.CollectionRequest :=
  { PinVerification.sampleRequest with
    itemsEstimated := auctionRow.itemsEstimated, agreedRates := rates }

theorem bargain_of_quote {rates : NumberRecord}
    (hquote : (exec (amid (fun _ => sampleWorld [auctionRow] []) fun _ => answer) 0
      (submitBid sampleService "center" "request" rates)).1.toOption = some (offeredBid rates))
    (hselected : (sampleWorld [auctionRow] [offeredBid rates]).selected "request"
      (offeredBid rates) =
      some (soldRow rates)) : Bargain sampleService (offeredBid rates) (soldRow rates) := by
  refine ⟨⟨fun _ => sampleWorld [auctionRow] [], fun _ => answer, "center", rates, auctionRow, ?_,
    rfl, rfl⟩, _, hselected⟩
  cases hexec : (exec (amid (fun _ => sampleWorld [auctionRow] []) fun _ => answer) 0
      (submitBid sampleService "center" "request" rates)).1 with
  | error e => rw [hexec] at hquote; cases hquote
  | ok bid => rw [hexec] at hquote; exact hexec.trans (congrArg Except.ok (Option.some.inj hquote))

/-- Both materials have a price. -/
theorem paid_iff_priced_both :
    Paid sampleService (measuredRow (numbers [("PET", 1), ("CARTON", 1)])) ⟨"4829", []⟩
      (offeredBid (numbers [("PET", 1), ("CARTON", 1)])) :=
  (paid_iff_priced (bargain_of_quote (by decide +kernel) (by decide +kernel))
    ⟨rfl, rfl, rfl⟩ rfl rfl).1
    (by decide +kernel)

/-- The bid has no price for the cardboard: it promises five tokens, and the completion pays seven
and a half. -/
theorem paid_beyond_quote :
    Bargain sampleService (offeredBid (numbers [("PET", 2)])) (soldRow (numbers [("PET", 2)])) ∧
      SameTerms (soldRow (numbers [("PET", 2)])) (measuredRow (numbers [("PET", 2)])) ∧
      (rewardOf sampleService.toService (measuredRow (numbers [("PET", 2)]))
        ⟨"4829", []⟩).householdAmount =
        15 / 2 ∧
      ¬Paid sampleService (measuredRow (numbers [("PET", 2)])) ⟨"4829", []⟩
        (offeredBid (numbers [("PET", 2)])) :=
  ⟨bargain_of_quote (by decide +kernel) (by decide +kernel), ⟨rfl, rfl, rfl⟩, by decide +kernel,
    by decide +kernel⟩

end Livora.AuctionQuotes
