import Livora.ChannelCallers
import Livora.ExactRewards
import Livora.MaterialCodes
import Livora.RegistryShares

/-! The estimate of a batch's tokens that goes to the log, beside the total that the contract comes
to. Each has a table of its own and a key of its own; where a material has one rate in both, they
differ by the rounding to grams and to stroops. -/

namespace Livora.TokenEstimates

open CheckedWords StellarXdr TypedStore TrappingState RegistryStorage RegistryContract RegistryRewards
open RegistryCalls NumberRecords UnicodeText MaterialCodes
open ChannelCallers (symbolOf)
open ExactRewards (MaterialRecord)

/-! ### The worker -/

def materialRates : List (String × ℚ) :=
  [("PET", 10), ("CARTON", 5), ("CARTÓN", 5), ("VIDRIO", 3), ("PLASTICO", 10), ("PLÁSTICO", 10),
   ("ALUMINIO", 15), ("TETRAPAK", 4), ("PAPEL", 5)]

def defaultMaterialRate : ℚ := 5

section Worker

variable (u : Tables)

/-- A rate that is there and not zero. No name in capitals is one that every object inherits. -/
def rateUnder (agreedRates : List (String × ℚ)) (mat : String) : Option ℚ :=
  (agreedRates.lookup mat).filter (· ≠ 0)

/-- `MATERIAL_RATES[normalizedKey] || DEFAULT_MATERIAL_RATE` -/
def estimateRate (key : String) : ℚ :=
  (rateUnder materialRates (rateCode u key)).getD defaultMaterialRate

def calculateTotalTokens (materialsActual : List (String × ℚ)) : ℚ :=
  materialsActual.foldl (fun total entry => total + entry.2 * estimateRate u entry.1) 0

/-- `Math.round(weightKg * 1000)` -/
def grams (weightKg : ℚ) : ℤ := ⌊weightKg * 1000 + 1 / 2⌋

structure WeightVectors where
  materialCodes : List String
  weightsGrams : List ℤ
  totalKg : ℚ

/-- What does not come to a gram is left out. -/
def buildWeightVectors (materialsActual : List (String × ℚ)) : WeightVectors :=
  let kept := materialsActual.filter fun entry => decide (0 < grams entry.2)
  { materialCodes := kept.map fun entry => vectorCode u entry.1
    weightsGrams := kept.map fun entry => grams entry.2
    totalKg := kept.foldl (fun totalKg entry => totalKg + entry.2) 0 }

end Worker

/-! ### The contract -/

/-- The total of `register_batch_weighed` for the vectors, as far as they are arguments of a
call. -/
def Rewarded (s : State) (v : WeightVectors) (total : ℤ) : Prop :=
  ∃ codes weights reward s', v.materialCodes.mapM symbolOf = some codes ∧
    v.weightsGrams.mapM (SWord.ofInt? 128) = some weights ∧
    Returns (sumRewards (codes.zip weights) 0) s reward s' ∧ reward.val = total

/-- The rates in force are those that `init` has set. -/
def RatesOfInit (s : State) : Prop :=
  ∃ owner worker s₀, Returns (RegistryContract.init owner worker) State.empty () s₀ ∧
    ∀ code, effectiveRate s code = effectiveRate s₀ code

/-- The rate that `init` leaves under a code, in stroops. -/
def presetRate (code : String) : ℤ :=
  ((presets.map fun preset => (preset.1.text, preset.2.val)).lookup code).getD (5 * oneEco)

variable {u : Tables} {s s' : State} {name : String} {weight : ℚ}

theorem setPresets_rate {rates : List (Symbol × I128)} (hcodes : (rates.map Prod.fst).Nodup)
    (h : Returns (setPresets rates) s () s') (code : Symbol) :
    s'.persistent.get (.materialRate code) =
      (rates.lookup code).or (s.persistent.get (.materialRate code)) := by
  induction rates generalizing s with
  | nil =>
    obtain ⟨-, rfl⟩ := returns_pure.mp h
    rfl
  | cons rate rates ih =>
    obtain ⟨hfresh, hcodes⟩ := List.nodup_cons.mp hcodes
    simp only [setPresets, returns_bind, returns_persistentSet, returns_persistentExtendTtl] at h
    obtain ⟨_, _, rfl, _, _, ⟨-, rfl⟩, hrest⟩ := h
    rw [ih hcodes hrest, lookup_cons]
    by_cases hcode : rate.1 = code
    · subst hcode
      rw [if_pos rfl, lookup_eq_none hfresh]
      exact Store.get_set_self _ _ _
    · rw [if_neg hcode]
      congr 1
      exact Store.get_set_of_ne fun he => hcode (DataKey.materialRate.inj he).symm

theorem lookup_text (rates : List (Symbol × I128)) (code : Symbol) :
    (rates.map fun rate => (rate.1.text, rate.2.val)).lookup code.text =
      (rates.lookup code).map SWord.val := by
  induction rates with
  | nil => rfl
  | cons rate rates ih =>
    have hsame : rate.1.text = code.text ↔ rate.1 = code := by
      cases hrate : rate.1
      cases code
      simp
    rw [List.map_cons, lookup_cons, lookup_cons, ih]
    simp only [hsame]
    split <;> rfl

theorem presets_nodup : (presets.map Prod.fst).Nodup := by decide

theorem effectiveRate_init {owner worker : Address}
    (h : Returns (RegistryContract.init owner worker) State.empty () s) (code : Symbol) :
    effectiveRate s code = presetRate code.text := by
  simp only [RegistryContract.init, returns_bind, returns_instanceHas, returns_trapIf,
    returns_instanceSet, returns_instanceExtendTtl] at h
  obtain ⟨_, _, ⟨-, rfl⟩, _, _, ⟨-, rfl⟩, _, _, rfl, _, _, rfl, _, _, rfl, _, _, rfl, _, t,
    hpresets, rfl⟩ := h
  have hrate := setPresets_rate presets_nodup hpresets code
  have hdefault : t.instanceData.get .defaultRate = some (i128 (5 * oneEco)) := by
    rw [(RegistryEffects.setPresets_spec hpresets).instanceData _
      (by simp [RegistryEffects.rateKeys])]
    rfl
  rw [presetRate, lookup_text, effectiveRate, hrate, hdefault]
  cases presets.lookup code with
  | some rate => rfl
  | none => rfl

theorem effectiveRate_of_init (h : RatesOfInit s) (code : Symbol) :
    effectiveRate s code = presetRate code.text := by
  obtain ⟨owner, worker, s₀, hinit, hrates⟩ := h
  rw [hrates, effectiveRate_init hinit]

theorem presets_whole : ∀ rate ∈ presets, ∃ n < 16, rate.2.val = (n : ℕ) * oneEco := by
  decide +kernel

theorem presetRate_whole (code : String) : ∃ n < 16, presetRate code = (n : ℕ) * oneEco := by
  unfold presetRate
  cases h : (presets.map fun preset => (preset.1.text, preset.2.val)).lookup code with
  | none => exact ⟨5, by decide, rfl⟩
  | some rate =>
    obtain ⟨preset, hpreset, he⟩ := List.mem_map.mp (mem_of_lookup h)
    obtain ⟨n, hn, hval⟩ := presets_whole preset hpreset
    exact ⟨n, hn, (congrArg Prod.snd he).symm.trans hval⟩

theorem materialRates_whole : ∀ rate ∈ materialRates, ∃ n < 16, rate.2 = (n : ℕ) := by
  decide +kernel

theorem estimateRate_whole (key : String) : ∃ n < 16, estimateRate u key = (n : ℕ) := by
  unfold estimateRate
  cases h : rateUnder materialRates (rateCode u key) with
  | none => exact ⟨5, by decide, rfl⟩
  | some rate =>
    obtain ⟨hlookup, -⟩ := Option.filter_eq_some_iff.mp h
    exact materialRates_whole _ (mem_of_lookup hlookup)

/-! ### One entry -/

def stroopsOf (rate : ℤ) (weight : ℚ) : ℤ := (grams weight * rate).tdiv 1000

def slackOf (rate : ℚ) : ℚ := rate * oneEco / 2000 + 1

theorem grams_nonneg (h : 0 ≤ weight) : 0 ≤ grams weight := Int.floor_nonneg.mpr (by linarith)

theorem abs_grams_sub_le (weight : ℚ) : |weight * 1000 - grams weight| ≤ 1 / 2 := by
  have hle := Int.floor_le (weight * 1000 + 1 / 2)
  have hlt := Int.lt_floor_add_one (weight * 1000 + 1 / 2)
  rw [grams, abs_le]
  constructor <;> linarith

theorem stroopsOf_left_out {rate : ℤ} (h0 : 0 ≤ weight) (h : ¬ 0 < grams weight) :
    stroopsOf rate weight = 0 := by
  have hzero : grams weight = 0 := le_antisymm (not_lt.mp h) (grams_nonneg h0)
  rw [stroopsOf, hzero, zero_mul, Int.zero_tdiv]

theorem abs_entry_le (rate : ℕ) (weight : ℚ) :
    |weight * rate * oneEco - stroopsOf (rate * oneEco) weight| ≤ slackOf rate := by
  have hgrams := abs_grams_sub_le weight
  have hfloor : stroopsOf (rate * oneEco) weight = grams weight * (rate * 10000) := by
    have hprod : grams weight * (rate * oneEco) = grams weight * (rate * 10000) * 1000 := by
      unfold oneEco
      ring
    rw [stroopsOf, hprod, Int.mul_tdiv_cancel _ (by norm_num)]
  have hdiff : weight * rate * oneEco - ((stroopsOf (rate * oneEco) weight : ℤ) : ℚ) =
      (weight * 1000 - grams weight) * (rate * 10000) := by
    rw [hfloor, oneEco]
    push_cast
    ring
  have hrate : (0 : ℚ) ≤ rate * 10000 := by positivity
  rw [hdiff, abs_mul, abs_of_nonneg hrate, slackOf, oneEco]
  have hmul := mul_le_mul_of_nonneg_right hgrams hrate
  push_cast
  linarith

/-! ### A batch -/

/-- The rates of the estimate and of the contract for a material. -/
def SameRate (u : Tables) (name : String) : Prop :=
  estimateRate u name * oneEco = presetRate (vectorCode u name)

/-- The code can be a symbol. -/
def IsSymbol (text : String) : Prop := ∃ code : Symbol, code.text = text

theorem symbolOf_eq_some {text : String} {code : Symbol} :
    symbolOf text = some code ↔ code.text = text := by
  unfold symbolOf
  constructor
  · intro h
    split at h
    · cases h
      rfl
    · cases h
  · rintro rfl
    rw [dif_pos code.short]

theorem vectors_reward (hs : RatesOfInit s) {kept : List (String × ℚ)} {codes : List Symbol}
    {weights : List I128}
    (hcodes : (kept.map fun entry => vectorCode u entry.1).mapM symbolOf = some codes)
    (hweights : (kept.map fun entry => grams entry.2).mapM (SWord.ofInt? 128) = some weights) :
    weighedReward (effectiveRate s) (codes.zip weights) =
        (kept.map fun entry => stroopsOf (presetRate (vectorCode u entry.1)) entry.2).sum ∧
      ∀ entry ∈ kept, IsSymbol (vectorCode u entry.1) := by
  induction kept generalizing codes weights with
  | nil =>
    cases hcodes
    cases hweights
    exact ⟨rfl, fun _ he => absurd he List.not_mem_nil⟩
  | cons entry kept ih =>
    simp only [List.map_cons, List.mapM_cons, Option.bind_eq_bind, Option.bind_eq_some_iff,
      Option.pure_def, Option.some.injEq] at hcodes hweights
    obtain ⟨code, hcode, codes, hcodes, rfl⟩ := hcodes
    obtain ⟨word, hword, weights, hweights, rfl⟩ := hweights
    obtain ⟨hsum, hsymbols⟩ := ih hcodes hweights
    have htext := symbolOf_eq_some.mp hcode
    constructor
    · rw [weighedReward] at hsum
      rw [weighedReward, List.zip_cons_cons, List.map_cons, List.sum_cons, hsum, List.map_cons,
        List.sum_cons, effectiveRate_of_init hs, htext, SWord.ofInt?_eq_some.mp hword]
      rfl
    · exact List.forall_mem_cons.mpr ⟨⟨code, htext⟩, hsymbols⟩

theorem sum_kept (f : String × ℚ → ℤ) {m : List (String × ℚ)}
    (h : ∀ entry ∈ m, ¬ 0 < grams entry.2 → f entry = 0) :
    ((m.filter fun entry => decide (0 < grams entry.2)).map f).sum = (m.map f).sum := by
  induction m with
  | nil => rfl
  | cons entry m ih =>
    have ih := ih fun e he => h e (List.mem_cons_of_mem _ he)
    by_cases hkept : 0 < grams entry.2
    · simp [hkept, ih]
    · simp [hkept, ih, h entry List.mem_cons_self hkept]

theorem rewarded_total (hs : RatesOfInit s) {m : List (String × ℚ)} (h0 : ∀ entry ∈ m, 0 ≤ entry.2)
    {total : ℤ} (h : Rewarded s (buildWeightVectors u m) total) :
    total = (m.map fun entry => stroopsOf (presetRate (vectorCode u entry.1)) entry.2).sum ∧
      ∀ entry ∈ m, 0 < grams entry.2 → IsSymbol (vectorCode u entry.1) := by
  obtain ⟨codes, weights, reward, s', hcodes, hweights, hreturns, rfl⟩ := h
  obtain ⟨-, hreward⟩ := sumRewards_spec hreturns
  obtain ⟨hsum, hsymbols⟩ := vectors_reward hs hcodes hweights
  constructor
  · rw [hreward, hsum, sum_kept _ fun entry he hleft => stroopsOf_left_out (h0 entry he) hleft]
    exact zero_add _
  · exact fun entry he hgrams => hsymbols entry (List.mem_filter.mpr ⟨he, decide_eq_true hgrams⟩)

def slack (u : Tables) (m : List (String × ℚ)) : ℚ :=
  (m.map fun entry => slackOf (estimateRate u entry.1)).sum

/-- Whatever total the contract comes to, the estimate is close to it. -/
def Close (u : Tables) (s : State) (m : List (String × ℚ)) : Prop :=
  ∀ total, Rewarded s (buildWeightVectors u m) total →
    |calculateTotalTokens u m * oneEco - total| ≤ slack u m

theorem abs_entry_of_sameRate (hsame : SameRate u name) :
    |weight * estimateRate u name * oneEco - stroopsOf (presetRate (vectorCode u name)) weight| ≤
      slackOf (estimateRate u name) := by
  obtain ⟨rate, -, hrate⟩ := estimateRate_whole (u := u) name
  have hpreset : presetRate (vectorCode u name) = rate * oneEco := by
    rw [SameRate, hrate] at hsame
    exact_mod_cast hsame.symm
  rw [hpreset, hrate]
  exact abs_entry_le rate weight

theorem abs_entry_of_left_out (h0 : 0 ≤ weight) (h : ¬ 0 < grams weight) :
    |weight * estimateRate u name * oneEco - stroopsOf (presetRate (vectorCode u name)) weight| ≤
      slackOf (estimateRate u name) := by
  obtain ⟨rate, -, hrate⟩ := estimateRate_whole (u := u) name
  have hown := abs_entry_le rate weight
  rw [stroopsOf_left_out h0 h] at hown
  rwa [stroopsOf_left_out h0 h, hrate]

theorem abs_sum_le {α : Type*} {f : α → ℚ} {g : α → ℤ} {bound : α → ℚ} {l : List α}
    (h : ∀ a ∈ l, |f a - g a| ≤ bound a) :
    |(l.map f).sum - ((l.map g).sum : ℤ)| ≤ (l.map bound).sum := by
  induction l with
  | nil => simp
  | cons a l ih =>
    have hhead := h a List.mem_cons_self
    have htail := ih fun b hb => h b (List.mem_cons_of_mem _ hb)
    rw [abs_le] at hhead htail ⊢
    simp only [List.map_cons, List.sum_cons, Int.cast_add]
    constructor <;> linarith

theorem calculateTotalTokens_eq (m : List (String × ℚ)) :
    calculateTotalTokens u m * oneEco =
      (m.map fun entry => entry.2 * estimateRate u entry.1 * oneEco).sum := by
  have hsum : calculateTotalTokens u m = 0 +
      (m.map fun entry => entry.2 * estimateRate u entry.1).sum :=
    ExactDecimals.foldl_id_add _ m 0
  rw [hsum, zero_add, List.sum_map_mul_right]

theorem close_of_sameRates (hs : RatesOfInit s) {m : List (String × ℚ)}
    (h0 : ∀ entry ∈ m, 0 ≤ entry.2)
    (hsame : ∀ entry ∈ m, IsSymbol (vectorCode u entry.1) → SameRate u entry.1) : Close u s m := by
  intro total htotal
  obtain ⟨hsum, hsymbols⟩ := rewarded_total hs h0 htotal
  rw [calculateTotalTokens_eq, hsum, slack]
  refine abs_sum_le fun entry he => ?_
  by_cases hkept : 0 < grams entry.2
  · exact abs_entry_of_sameRate (hsame entry he (hsymbols entry he hkept))
  · exact abs_entry_of_left_out (h0 entry he) hkept

/-! ### A kilogram of one material -/

theorem getEffectiveRate_returns (s : State) (code : Symbol) :
    ∃ rate, Returns (getEffectiveRate code) s rate s := by
  simp only [getEffectiveRate, returns_bind, returns_persistentHas]
  cases hget : s.persistent.get (.materialRate code) with
  | some rate => exact ⟨rate, true, s, ⟨by simp [Store.has, hget], rfl⟩, by simp [Store.has, hget]⟩
  | none =>
    exact ⟨unwrapOr (s.instanceData.get .defaultRate) 0, false, s,
      ⟨by simp [Store.has, hget], rfl⟩, by simp⟩

theorem kilogram_nodup (name : String) : ([(name, (1 : ℚ))].map Prod.fst).Nodup :=
  List.nodup_singleton _

def kilogram (name : String) : MaterialRecord := ⟨[(name, 1)], kilogram_nodup name⟩

theorem grams_one : grams 1 = 1000 := by
  norm_num [grams]

theorem rewarded_kilogram (hs : RatesOfInit s) (hcode : IsSymbol (vectorCode u name)) :
    Rewarded s (buildWeightVectors u (kilogram name).entries) (presetRate (vectorCode u name)) := by
  obtain ⟨code, htext⟩ := hcode
  obtain ⟨rate, hrate⟩ := getEffectiveRate_returns s code
  obtain ⟨-, hval⟩ := getEffectiveRate_spec hrate
  rw [effectiveRate_of_init hs, htext] at hval
  obtain ⟨n, hn, hwhole⟩ := presetRate_whole (vectorCode u name)
  have hvectors : buildWeightVectors u (kilogram name).entries =
      ⟨[vectorCode u name], [1000], 1⟩ := by
    simp [buildWeightVectors, kilogram, grams_one]
  have hproduct : Fits 128 (1000 * rate.val) := by
    rw [hval, hwhole, oneEco]
    constructor <;> norm_num <;> omega
  refine ⟨[code], [i128 1000], rate, s, ?_, ?_, ?_, hval⟩
  · rw [hvectors, List.mapM_cons, symbolOf_eq_some.mpr htext]
    rfl
  · rw [hvectors, List.mapM_cons, SWord.ofInt?_eq_some.mpr (val_i128 (by decide))]
    rfl
  · simp only [List.zip_cons_cons, List.zip_nil_right, sumRewards, returns_bind, returns_checked,
      SWord.checkedMul_eq_some, SWord.checkedDiv_eq_some, SWord.checkedAdd_eq_some, returns_pure]
    refine ⟨rate, s, hrate, ⟨1000 * rate.val, hproduct⟩, s, ⟨?_, rfl⟩, rate, s,
      ⟨⟨by decide, ?_⟩, rfl⟩, rate, s, ⟨?_, rfl⟩, rfl, rfl⟩
    · rw [val_i128 (by decide)]
    · rw [val_i128 (by decide)]
      exact (Int.mul_tdiv_cancel_left _ (by norm_num)).symm
    · exact (zero_add _).symm

theorem eq_of_abs_le {n k : ℕ} (hk : k < 16)
    (h : |(k : ℚ) * oneEco - ((n * oneEco : ℤ) : ℚ)| ≤ slackOf k) :
    k = n := by
  have heco : ((oneEco : ℤ) : ℚ) = 10000000 := by norm_num [oneEco]
  rw [slackOf, Int.cast_mul, Int.cast_natCast, heco, abs_le] at h
  have hk' : (k : ℚ) ≤ 15 := by exact_mod_cast Nat.lt_succ_iff.mp hk
  have hlow : (n : ℚ) < k + 1 := by linarith [h.1]
  have hhigh : (k : ℚ) < n + 1 := by linarith [h.2]
  have hlow : n < k + 1 := by exact_mod_cast hlow
  have hhigh : k < n + 1 := by exact_mod_cast hhigh
  omega

theorem sameRate_of_close (hs : RatesOfInit s) (hcode : IsSymbol (vectorCode u name))
    (h : Close u s (kilogram name).entries) : SameRate u name := by
  have hclose := h _ (rewarded_kilogram hs hcode)
  obtain ⟨n, -, hwhole⟩ := presetRate_whole (vectorCode u name)
  obtain ⟨k, hk, hrate⟩ := estimateRate_whole (u := u) name
  have htokens : calculateTotalTokens u (kilogram name).entries = k := by
    simp [calculateTotalTokens, kilogram, hrate]
  have hslack : slack u (kilogram name).entries = slackOf k := by
    rw [slack, kilogram, List.map_singleton, List.sum_singleton, hrate]
  rw [htokens, hslack, hwhole] at hclose
  rw [SameRate, hrate, hwhole, eq_of_abs_le hk hclose, Int.cast_mul, Int.cast_natCast]

/-- The estimate is close to what the contract credits for every batch of the materials, exactly
when each of them that can be a symbol has one rate in the two tables. -/
theorem estimate_close_iff (u : Tables) (hs : RatesOfInit s) (materials : Set String) :
    (∀ m : MaterialRecord, (∀ entry ∈ m.entries, entry.1 ∈ materials ∧ 0 ≤ entry.2) →
      Close u s m.entries) ↔
      ∀ name ∈ materials, IsSymbol (vectorCode u name) → SameRate u name := by
  constructor
  · intro h name hname hcode
    refine sameRate_of_close hs hcode (h (kilogram name) fun entry he => ?_)
    obtain rfl : entry = (name, 1) := List.mem_singleton.mp he
    exact ⟨hname, zero_le_one⟩
  · exact fun h m hm => close_of_sameRates hs (fun entry he => (hm entry he).2)
      fun entry he => h entry.1 (hm entry he).1

/-! ### The contract as it is deployed -/

def start : State := after sampleHost State.empty [deployed]

theorem ratesOfInit_start : RatesOfInit start := by
  obtain ⟨s', h⟩ :=
    accepts_iff.mp (show accepts sampleHost State.empty deployed = true by decide +kernel)
  have hstart : start = s' := commit_of_returns h
  exact ⟨admin, admin, s', h, fun code => by rw [hstart]⟩

theorem estimate_close_iff_carton : RatesOfInit start ∧
    ∀ m : MaterialRecord, (∀ entry ∈ m.entries, entry.1 ∈ ({"PET", "Cartón"} : Set String) ∧
      0 ≤ entry.2) →
      Close Sample.tables start m.entries := by
  refine ⟨ratesOfInit_start, (estimate_close_iff Sample.tables ratesOfInit_start _).mpr
    fun name hname _ => ?_⟩
  rcases hname with rfl | rfl
  · show _ = _
    decide +kernel
  · show _ = _
    decide +kernel

def decomposed : String := "Pla" ++ String.singleton (Char.ofNat 0x301) ++ "stico"

/-- The contract takes ten tokens for a kilogram, the estimate five. -/
theorem estimate_off :
    calculateTotalTokens Sample.tables (kilogram decomposed).entries = 5 ∧
      Rewarded start (buildWeightVectors Sample.tables (kilogram decomposed).entries)
      (10 * oneEco) ∧
      ¬ Close Sample.tables start (kilogram decomposed).entries := by
  have hcode : vectorCode Sample.tables decomposed = "PLASTICO" := by decide +kernel
  have htokens : calculateTotalTokens Sample.tables (kilogram decomposed).entries = 5 := by
    decide +kernel
  have hsymbol : IsSymbol (vectorCode Sample.tables decomposed) :=
    ⟨⟨"PLASTICO", by decide⟩, hcode.symm⟩
  have hrewarded := rewarded_kilogram ratesOfInit_start hsymbol
  have hten : presetRate (vectorCode Sample.tables decomposed) = 10 * oneEco := by
    rw [hcode]
    decide +kernel
  rw [hten] at hrewarded
  refine ⟨htokens, hrewarded, fun hclose => ?_⟩
  have hsame := sameRate_of_close ratesOfInit_start hsymbol hclose
  rw [SameRate, hten] at hsame
  exact absurd hsame (by decide +kernel)

end Livora.TokenEstimates
