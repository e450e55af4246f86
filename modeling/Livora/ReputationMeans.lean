import Livora.CollectionRatings
import Livora.DebitBounds

/-! The score of a collector against the mean of the ratings it was given. Each rating is
averaged with the score that was rounded to cents before, so what a rounding drops is
carried on: the score is the rounded mean exactly as long as no half cent comes to lie
between the two means. -/

namespace Livora.ReputationMeans

open DoubleRounding RewardStrategies CollectionRatings
open DebitBounds (toFixed_of_small toFixed_mono)
open ExactDecimals (round_mono)

abbrev Stars := {stars : ℕ // 1 ≤ stars ∧ stars ≤ 5}

def rated (collector : Collector) (rating : Stars) : Collector :=
  let newReputation := newReputation collector rating.val
  let newTotalRatings := collector.totalRatings + 1
  { collector with
    reputationScore := newReputation
    totalRatings := newTotalRatings
    requiresQaReview :=
      if requiresQa newReputation newTotalRatings then true else collector.requiresQaReview }

def after (collector : Collector) (ratings : List Stars) : Collector :=
  ratings.foldl rated collector

theorem after_concat (collector : Collector) (ratings : List Stars) (rating : Stars) :
    after collector (ratings ++ [rating]) = rated (after collector ratings) rating := by
  rw [after, List.foldl_append]
  rfl

theorem findCollector_average (w : World) {collector : Collector}
    (h : w.findCollector collector.id = some collector) (rating : Stars) (requestId : String) :
    (w.effect (.updateCollector requestId collector.id (newReputation collector rating.val)
      (collector.totalRatings + 1)
      (if requiresQa (newReputation collector rating.val) (collector.totalRatings + 1) then true
        else collector.requiresQaReview))).findCollector collector.id =
          some (rated collector rating) := by
  have hkeep (row : Collector) : (World.averagedAs collector.id (newReputation collector rating.val)
      (collector.totalRatings + 1)
      (if requiresQa (newReputation collector rating.val) (collector.totalRatings + 1) then true
        else collector.requiresQaReview) row).id = row.id := by
    unfold World.averagedAs
    split <;> rfl
  rw [World.effect, if_pos (by rw [h]; rfl), World.findCollector, KeyedRows.lookup_map hkeep]
  rw [World.findCollector] at h
  rw [h, Option.map_some, World.averagedAs, if_pos rfl]
  rfl

/-! ### The two means -/

def mean (ratings : List Stars) : ℚ :=
  (ratings.map fun rating : Stars => (rating.val : ℚ)).sum / ratings.length

/-- The mean that the stored score stands for, before it is rounded to cents:
`(currentRep * currentTotal + rating) / newTotalRatings` -/
def carriedMean (collector : Collector) (rating : Stars) : ℚ :=
  fl (fl (fl (collector.reputationScore * collector.totalRatings) + rating.val) /
    (collector.totalRatings + 1 : ℕ))

theorem reputationScore_rated (collector : Collector) (rating : Stars) :
    (rated collector rating).reputationScore = toFixed (carriedMean collector rating) 2 := by
  rfl

/-- No half cent lies above one number and not above the other; a half cent rounds up. -/
def SameCent (x y : ℚ) : Prop := ∀ k : ℤ, (2 * k + 1) / 200 ≤ x ↔ (2 * (k : ℚ) + 1) / 200 ≤ y

theorem halfCent_le_iff (x : ℚ) (k : ℤ) :
    (2 * (k : ℚ) + 1) / 200 ≤ x ↔ k + 1 ≤ round (x * 10 ^ 2) := by
  rw [round_eq, Int.le_floor]
  push_cast
  constructor <;> intro h <;> linarith

theorem sameCent_iff {x y : ℚ} : SameCent x y ↔ round (x * 10 ^ 2) = round (y * 10 ^ 2) := by
  constructor
  · intro h
    have hk (k : ℤ) : k + 1 ≤ round (x * 10 ^ 2) ↔ k + 1 ≤ round (y * 10 ^ 2) := by
      rw [← halfCent_le_iff, ← halfCent_le_iff]
      exact h k
    have hle := (hk (round (x * 10 ^ 2) - 1)).mp (by omega)
    have hge := (hk (round (y * 10 ^ 2) - 1)).mpr (by omega)
    omega
  · intro h k
    rw [halfCent_le_iff, halfCent_le_iff, h]

theorem fl_cents_inj {a b : ℤ} (ha : 0 ≤ a) (ha' : a ≤ 1000) (hb : 0 ≤ b) (hb' : b ≤ 1000)
    (h : fl ((a : ℚ) / 10 ^ 2) = fl ((b : ℚ) / 10 ^ 2)) : a = b := by
  have hclose {c : ℤ} (hc : 0 ≤ c) (hc' : c ≤ 1000) :
      |fl ((c : ℚ) / 10 ^ 2) - (c : ℚ) / 10 ^ 2| ≤ 1 / 1000 := by
    have hc0 : (0 : ℚ) ≤ c := by exact_mod_cast hc
    have hc1 : (c : ℚ) ≤ 1000 := by exact_mod_cast hc'
    have hsmall : |(c : ℚ) / 10 ^ 2| < 2 ^ (4 : ℤ) := by
      rw [abs_of_nonneg (by positivity), div_lt_iff₀ (by norm_num)]
      norm_num
      linarith
    refine (abs_fl_sub_le_of_lt hsmall (by norm_num)).trans ?_
    norm_num
  have hxa := abs_le.mp (hclose ha ha')
  have hxb := abs_le.mp (hclose hb hb')
  have hlt : |(a : ℚ) - b| < 1 := by
    rw [abs_lt]
    constructor <;> linarith
  have hint : |a - b| < 1 := by exact_mod_cast hlt
  rw [Int.abs_lt_one_iff] at hint
  omega

theorem toFixed_eq_iff {x y : ℚ} (hx : 0 ≤ x) (hx' : x ≤ 9) (hy : 0 ≤ y) (hy' : y ≤ 9) :
    toFixed x 2 = toFixed y 2 ↔ SameCent x y := by
  have hcents {z : ℚ} (hz : 0 ≤ z) (hz' : z ≤ 9) : 0 ≤ round (z * 10 ^ 2) ∧
      round (z * 10 ^ 2) ≤ 1000 := by
    rw [round_eq]
    constructor
    · exact Int.floor_nonneg.mpr (by positivity)
    · refine Int.floor_le_iff.mpr ?_
      push_cast
      linarith
  rw [toFixed_of_small hx (by linarith), toFixed_of_small hy (by linarith), sameCent_iff]
  constructor
  · exact fl_cents_inj (hcents hx hx').1 (hcents hx hx').2 (hcents hy hy').1 (hcents hy hy').2
  · intro h
    rw [h]

/-! ### The bounds -/

theorem fl_within {x : ℚ} (h : 1 ≤ x) :
    (1 - 1 / 10 ^ 9) * x ≤ fl x ∧ fl x ≤ (1 + 1 / 10 ^ 9) * x := by
  have hnormal : (2 : ℚ) ^ (-1022 : ℤ) ≤ |x| := by
    rw [abs_of_nonneg (by linarith)]
    exact (zpow_le_one_of_nonpos₀ (by norm_num) (by norm_num)).trans h
  have herr := abs_le.mp (abs_fl_sub_le_rel hnormal)
  rw [abs_of_nonneg (by linarith : (0 : ℚ) ≤ x)] at herr
  have hpart : x / 2 ^ 53 ≤ 1 / 10 ^ 9 * x := by
    rw [div_eq_mul_one_div, mul_comm]
    exact mul_le_mul_of_nonneg_right (by norm_num) (by linarith)
  constructor <;> linarith

/-- The score is one of at most five stars, or there is none yet. -/
def Starred (collector : Collector) : Prop :=
  collector.totalRatings = 0 ∨ (1 ≤ collector.reputationScore ∧ collector.reputationScore ≤ 5)

theorem carriedMean_within {collector : Collector} (h : Starred collector) (rating : Stars) :
    996 / 1000 ≤ carriedMean collector rating ∧ carriedMean collector rating ≤ 5004 / 1000 := by
  obtain ⟨stars, hleast, hmost⟩ := rating
  have hleast' : (1 : ℚ) ≤ stars := by exact_mod_cast hleast
  have hmost' : (stars : ℚ) ≤ 5 := by exact_mod_cast hmost
  have hn : (0 : ℚ) ≤ collector.totalRatings := by positivity
  -- what the earlier ratings weigh
  have hearlier : (1 - 1 / 10 ^ 9) * (collector.totalRatings : ℚ) ≤
        fl (collector.reputationScore * collector.totalRatings) ∧
      fl (collector.reputationScore * collector.totalRatings) ≤
        (1 + 1 / 10 ^ 9) * (5 * collector.totalRatings) := by
    rcases Nat.eq_zero_or_pos collector.totalRatings with hzero | hpos
    · rw [hzero]
      norm_num
    · obtain hzero | ⟨h1, h5⟩ := h
      · omega
      have hone : (1 : ℚ) ≤ collector.totalRatings := by exact_mod_cast hpos
      have hlow : (collector.totalRatings : ℚ) ≤ collector.reputationScore *
          collector.totalRatings := by
        nlinarith only [h1, hone]
      have hhigh : collector.reputationScore * collector.totalRatings ≤ 5 *
          (collector.totalRatings : ℚ) :=
        mul_le_mul_of_nonneg_right h5 hn
      have hfl := fl_within (hone.trans hlow)
      constructor <;> linarith [hfl.1, hfl.2]
  unfold carriedMean
  generalize fl (collector.reputationScore * collector.totalRatings) = earlier at hearlier ⊢
  have hsum := fl_within (x := earlier + stars) (by linarith [hearlier.1])
  generalize fl (earlier + stars) = all at hsum ⊢
  have hcount : (0 : ℚ) < (collector.totalRatings + 1 : ℕ) := by positivity
  have hcast : ((collector.totalRatings + 1 : ℕ) : ℚ) = collector.totalRatings + 1 := by
    push_cast; ring
  have hlow : 998 / 1000 ≤ all / (collector.totalRatings + 1 : ℕ) := by
    rw [le_div_iff₀ hcount, hcast]
    nlinarith only [hsum.1, hearlier.1, hleast', hn]
  have hhigh : all / (collector.totalRatings + 1 : ℕ) ≤ 5002 / 1000 := by
    rw [div_le_iff₀ hcount, hcast]
    nlinarith only [hsum.2, hearlier.2, hmost', hn]
  have hquotient : |all / (collector.totalRatings + 1 : ℕ)| < 2 ^ (3 : ℤ) := by
    rw [abs_of_nonneg (by linarith)]
    exact hhigh.trans_lt (by norm_num)
  have hfl := abs_le.mp ((abs_fl_sub_le_of_lt hquotient (by norm_num)).trans
    (by norm_num : _ ≤ (1 : ℚ) / 1000))
  constructor <;> linarith [hfl.1, hfl.2]

theorem starred_rated {collector : Collector} (h : Starred collector) (rating : Stars) :
    1 ≤ (rated collector rating).reputationScore ∧
      (rated collector rating).reputationScore ≤ 5 := by
  obtain ⟨hlow, hhigh⟩ := carriedMean_within h rating
  have hone : toFixed (996 / 1000) 2 = 1 := by
    have hround : round ((996 / 1000 : ℚ) * 10 ^ 2) = 100 := by
      rw [round_eq_iff]
      norm_num
    rw [toFixed_of_small (by norm_num) (by norm_num), hround]
    norm_num
    exact fl_intCast (n := 1) (by norm_num)
  have hfive : toFixed (5004 / 1000) 2 = 5 := by
    have hround : round ((5004 / 1000 : ℚ) * 10 ^ 2) = 500 := by
      rw [round_eq_iff]
      norm_num
    rw [toFixed_of_small (by norm_num) (by norm_num), hround]
    norm_num
    exact fl_intCast (n := 5) (by norm_num)
  rw [reputationScore_rated]
  exact ⟨hone ▸ toFixed_mono (by norm_num) hlow, hfive ▸ toFixed_mono (by linarith) hhigh⟩

theorem starred_after {collector : Collector} (h : Starred collector) (ratings : List Stars) :
    Starred (after collector ratings) := by
  induction ratings using List.reverseRecOn with
  | nil => exact h
  | append_singleton ratings rating ih =>
    rw [after_concat]
    exact .inr (starred_rated ih rating)

/-! ### The score and the mean -/

theorem mean_within (given : List Stars) (rating : Stars) :
    1 ≤ mean (given ++ [rating]) ∧ mean (given ++ [rating]) ≤ 5 := by
  have hsum (ratings : List Stars) : (ratings.length : ℚ) ≤ (ratings.map fun r : Stars =>
    (r.val : ℚ)).sum ∧
      (ratings.map fun r : Stars => (r.val : ℚ)).sum ≤ 5 * ratings.length := by
    induction ratings with
    | nil => simp
    | cons r ratings ih =>
      have hleast : (1 : ℚ) ≤ r.val := by exact_mod_cast r.2.1
      have hmost : (r.val : ℚ) ≤ 5 := by exact_mod_cast r.2.2
      rw [List.map_cons, List.sum_cons, List.length_cons]
      push_cast
      constructor <;> linarith [ih.1, ih.2]
  have hlength : (0 : ℚ) < (given ++ [rating]).length := by
    rw [List.length_append, List.length_singleton]
    positivity
  exact ⟨(one_le_div hlength).mpr (hsum _).1, (div_le_iff₀ hlength).mpr (hsum _).2⟩

/-- The score after the last rating is the mean of all of them, to the cent. -/
def ShowsMean (collector : Collector) (ratings : List Stars) : Prop :=
  (after collector ratings).reputationScore = toFixed (mean ratings) 2

/-- The mean of the ratings given, in cents, averaged with one more in the arithmetic of the
machine: `(rep * total + rating) / (total + 1)` -/
def meanInCents (given : List Stars) (rating : Stars) : ℚ :=
  fl (fl (fl (toFixed (mean given) 2 * given.length) + rating.val) / (given.length + 1 : ℕ))

/-- No half cent lies between the mean of all ratings and the one that the earlier ones give in
cents. -/
def CentsCarry (given : List Stars) (rating : Stars) : Prop :=
  SameCent (meanInCents given rating) (mean (given ++ [rating]))

theorem totalRatings_after {collector : Collector} (h : collector.totalRatings = 0)
    (ratings : List Stars) :
    (after collector ratings).totalRatings = ratings.length := by
  induction ratings using List.reverseRecOn with
  | nil => exact h
  | append_singleton ratings rating ih =>
    rw [after_concat, List.length_append, List.length_singleton, ← ih]
    rfl

theorem carriedMean_after {collector : Collector} (h : collector.totalRatings = 0)
    {given : List Stars} (hgiven : given = [] ∨ ShowsMean collector given) (rating : Stars) :
    carriedMean (after collector given) rating = meanInCents given rating := by
  rw [carriedMean, meanInCents, totalRatings_after h]
  rcases hgiven with rfl | hshows
  · simp
  · rw [hshows]

theorem showsMean_iff {collector : Collector} (h : collector.totalRatings = 0) {given : List Stars}
    (hgiven : given = [] ∨ ShowsMean collector given) (rating : Stars) :
    ShowsMean collector (given ++ [rating]) ↔ CentsCarry given rating := by
  obtain ⟨hlow, hhigh⟩ := carriedMean_within (starred_after (.inl h) given) rating
  obtain ⟨hone, hfive⟩ := mean_within given rating
  rw [ShowsMean, CentsCarry, after_concat, reputationScore_rated, ← carriedMean_after h hgiven]
  exact toFixed_eq_iff (by linarith) (by linarith) (by linarith) (by linarith)

theorem showsMean_of_carry {collector : Collector} (h : collector.totalRatings = 0)
    {ratings : List Stars}
    (hcarry : ∀ given rating, given ++ [rating] <+: ratings → CentsCarry given rating) :
    ∀ given, given <+: ratings → given = [] ∨ ShowsMean collector given := by
  intro given hprefix
  induction given using List.reverseRecOn with
  | nil => exact .inl rfl
  | append_singleton given rating ih =>
    have hgiven := ih ((List.prefix_append given [rating]).trans hprefix)
    exact .inr ((showsMean_iff h hgiven rating).mpr (hcarry given rating hprefix))

/-- Over ratings given one after another to a collector without any, the score stays between one
and five stars, and it is the mean after each of them if and only if the cents of each mean carry
on. -/
theorem score_is_mean_iff (collector : Collector) (h : collector.totalRatings = 0)
    (ratings : List Stars) :
    (∀ given rating, given ++ [rating] <+: ratings → ShowsMean collector (given ++ [rating]) ∧
        1 ≤ (after collector (given ++ [rating])).reputationScore ∧
        (after collector (given ++ [rating])).reputationScore ≤ 5) ↔
      ∀ given rating, given ++ [rating] <+: ratings → CentsCarry given rating := by
  constructor
  · intro hall given rating hprefix
    refine (showsMean_iff h ?_ rating).mp (hall given rating hprefix).1
    rcases List.eq_nil_or_concat given with hnil | ⟨given', rating', rfl⟩
    · exact .inl hnil
    · rw [List.concat_eq_append] at hprefix ⊢
      exact .inr (hall given' rating' ((List.prefix_append _ _).trans hprefix)).1
  · intro hcarry given rating hprefix
    refine ⟨(showsMean_of_carry h hcarry _ hprefix).resolve_left (by simp), ?_⟩
    rw [after_concat]
    exact starred_rated (starred_after (.inl h) given) rating

theorem one_valid : 1 ≤ 1 ∧ 1 ≤ 5 := by decide
theorem two_valid : 1 ≤ 2 ∧ 2 ≤ 5 := by decide

def newcomer : Collector := ⟨"collector", 5, 0, false⟩

def sevenRatings : List Stars := List.replicate 5 ⟨1, one_valid⟩ ++ [⟨2, two_valid⟩, ⟨1, one_valid⟩]

theorem score_is_mean_iff_newcomer :
    (∀ given rating, given ++ [rating] <+: sevenRatings → ShowsMean newcomer (given ++ [rating]) ∧
        1 ≤ (after newcomer (given ++ [rating])).reputationScore ∧
        (after newcomer (given ++ [rating])).reputationScore ≤ 5) ↔
      ∀ given rating, given ++ [rating] <+: sevenRatings → CentsCarry given rating :=
  score_is_mean_iff newcomer rfl sevenRatings

theorem sevenRatings_off :
    newcomer.totalRatings = 0 ∧ (after newcomer sevenRatings).reputationScore = fl (115 / 100) ∧
      mean sevenRatings = 8 / 7 ∧ ¬ShowsMean newcomer sevenRatings := by
  have hscore : (after newcomer sevenRatings).reputationScore = fl (115 / 100) := by decide +kernel
  refine ⟨rfl, hscore, by decide +kernel, ?_⟩
  rw [ShowsMean, hscore]
  decide +kernel

/-! ### Many ratings -/

theorem fl_cents_within {cents : ℕ} (hlow : 100 ≤ cents) (hhigh : cents ≤ 500) :
    1 ≤ fl ((cents : ℚ) / 10 ^ 2) ∧ fl ((cents : ℚ) / 10 ^ 2) ≤ 5 ∧
      |fl ((cents : ℚ) / 10 ^ 2) - cents / 10 ^ 2| ≤ 1 / 10 ^ 6 := by
  have hlow' : (100 : ℚ) ≤ cents := by exact_mod_cast hlow
  have hhigh' : (cents : ℚ) ≤ 500 := by exact_mod_cast hhigh
  refine ⟨?_, ?_, ?_⟩
  · have hone : fl 1 = 1 := fl_intCast (n := 1) (by norm_num)
    exact hone ▸ fl_mono (by rw [le_div_iff₀ (by norm_num)]; linarith)
  · have hfive : fl 5 = 5 := fl_intCast (n := 5) (by norm_num)
    exact hfive ▸ fl_mono (by rw [div_le_iff₀ (by norm_num)]; linarith)
  · have hsmall : |(cents : ℚ) / 10 ^ 2| < 2 ^ (3 : ℤ) := by
      rw [abs_of_nonneg (by positivity), div_lt_iff₀ (by norm_num)]
      norm_num
      linarith
    exact (abs_fl_sub_le_of_lt hsmall (by norm_num)).trans (by norm_num)

theorem carriedMean_near {collector : Collector} (hlow : 1 ≤ collector.reputationScore)
    (hhigh : collector.reputationScore ≤ 5) (hmany : 1000 ≤ collector.totalRatings)
    (rating : Stars) :
    |carriedMean collector rating - collector.reputationScore| ≤ 45 / 10 ^ 4 := by
  obtain ⟨stars, hleast, hmost⟩ := rating
  have hleast' : (1 : ℚ) ≤ stars := by exact_mod_cast hleast
  have hmost' : (stars : ℚ) ≤ 5 := by exact_mod_cast hmost
  have hmany' : (1000 : ℚ) ≤ collector.totalRatings := by exact_mod_cast hmany
  have hcast : ((collector.totalRatings + 1 : ℕ) : ℚ) = collector.totalRatings + 1 := by
    push_cast; ring
  unfold carriedMean
  rw [hcast]
  generalize collector.reputationScore = score at hlow hhigh ⊢
  generalize (collector.totalRatings : ℚ) = total at hmany' ⊢
  have hweight : total ≤ score * total := by nlinarith only [hlow, hmany']
  have hweight' : score * total ≤ 5 * total := by nlinarith only [hhigh, hmany']
  have hearlier := fl_within (by linarith : 1 ≤ score * total)
  generalize fl (score * total) = earlier at hearlier ⊢
  have hsum := fl_within (by linarith [hearlier.1] : 1 ≤ earlier + stars)
  generalize fl (earlier + stars) = all at hsum ⊢
  have hcount : 0 < total + 1 := by linarith
  have hquotient : |all / (total + 1) - score| ≤ 44 / 10 ^ 4 := by
    rw [abs_le, neg_le_sub_iff_le_add, sub_le_iff_le_add, div_le_iff₀ hcount, ← sub_le_iff_le_add,
      le_div_iff₀ hcount]
    constructor <;> nlinarith only [hearlier.1, hearlier.2, hsum.1, hsum.2, hweight, hweight',
      hleast', hmost', hmany', hlow, hhigh]
  have hsmall : |all / (total + 1)| < 2 ^ (3 : ℤ) := by
    rw [abs_le] at hquotient
    rw [abs_lt]
    constructor <;> norm_num <;> linarith [hquotient.1, hquotient.2]
  have hfl := (abs_fl_sub_le_of_lt hsmall (by norm_num)).trans (by norm_num : _ ≤ (1 : ℚ) / 10 ^ 4)
  rw [abs_le] at hquotient hfl ⊢
  constructor <;> linarith [hquotient.1, hquotient.2, hfl.1, hfl.2]

theorem score_frozen {collector : Collector} {cents : ℕ} (hlow : 100 ≤ cents) (hhigh : cents ≤ 500)
    (hscore : collector.reputationScore = fl (cents / 10 ^ 2))
    (hmany : 1000 ≤ collector.totalRatings) (ratings : List Stars) :
    (after collector ratings).reputationScore = collector.reputationScore := by
  obtain ⟨h1, h5, hcents⟩ := fl_cents_within hlow hhigh
  induction ratings using List.reverseRecOn with
  | nil => rfl
  | append_singleton ratings rating ih =>
    have htotal : 1000 ≤ (after collector ratings).totalRatings := by
      clear ih
      induction ratings using List.reverseRecOn with
      | nil => exact hmany
      | append_singleton ratings rating ih =>
        rw [after_concat]
        exact ih.trans (Nat.le_succ _)
    rw [← ih] at hscore
    rw [← hscore] at h1 h5 hcents
    have hnear := abs_le.mp (carriedMean_near h1 h5 htotal rating)
    rw [abs_le] at hcents
    have hround : round (carriedMean (after collector ratings) rating * 10 ^ 2) = cents := by
      rw [round_eq_iff]
      push_cast
      constructor <;> linarith [hnear.1, hnear.2, hcents.1, hcents.2]
    rw [after_concat, reputationScore_rated,
      toFixed_of_small (by linarith [hnear.1]) (by linarith [hnear.2]),
      hround, Int.cast_natCast, ← hscore, ih]

end Livora.ReputationMeans
