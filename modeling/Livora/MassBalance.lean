import Livora.StockRaces

/-! The balance of masses of a centre: of each material at most 95 % of what came in has gone out. A
sale and an acceptance check it by sums that they read before they write, the other ways out do not.
It holds along every run in which those sums are still the ones read, and whatever else takes
material out would have passed the check of a sale. -/

namespace Livora.MassBalance

open DoubleRounding TransitionRuns EffectPrograms ProgramPools ProgramPools.System StockBooks CentAmounts
open StockAmounts StockMoves StockServices StockStages CenterBooks StockRaces
open PinVerification (Delivery)

variable {t : Letters} {w v : World} {stock stock' : Stock} {st : ℕ → Option Stage} {j : ℕ}
    {s : Stage}
  {i : Op} {o : Outcome} {x : ℚ} {a b n : ℕ} {centerId material : String}

/-! ### The check of a sale -/

theorem allowedShare : 0 ≤ fl (1 - shrinkFactor) ∧ fl (1 - shrinkFactor) ≤ 95 / 100 := by
  decide +kernel

theorem abs_fl_sub_le_of_fl_lt (hx : -1 ≤ x) (h : fl x < 10 ^ 11) : |fl x - x| ≤ 1 / 2 ^ 17 := by
  have hlarge : x < 2 ^ (38 : ℤ) :=
    lt_of_fl_lt (k := 37) (by norm_num) (h.trans (by norm_num))
  have hrough := abs_le.mp (abs_fl_sub_le_of_lt (x := x) (k := 38)
    (abs_lt.mpr ⟨by norm_num; linarith, hlarge⟩) (by norm_num))
  have hx' : |x| < 2 ^ (37 : ℤ) := by
    rw [abs_lt]
    norm_num at hrough ⊢
    constructor <;> linarith
  exact (abs_fl_sub_le_of_lt hx' (by norm_num)).trans (by norm_num)

theorem allowedLimit_le {amount : ℚ} (hpos : 0 ≤ amount) (h : amount < 10 ^ 11) :
    allowedLimit (fl amount) ≤ 95 / 100 * amount + 2 / 2 ^ 17 ∧
      allowedLimit (fl amount) < 10 ^ 11 := by
  obtain ⟨hshare, hshare'⟩ := allowedShare
  have hread := abs_le.mp (abs_fl_sub_le_of_lt (x := amount) (k := 37)
    (abs_lt.mpr ⟨by norm_num; linarith, h.trans (by norm_num)⟩) (by norm_num))
  have hfl := fl_nonneg hpos
  have hprod : 0 ≤ fl amount * fl (1 - shrinkFactor) := mul_nonneg hfl hshare
  have hprod' : fl amount * fl (1 - shrinkFactor) ≤ fl amount * (95 / 100) :=
    mul_le_mul_of_nonneg_left hshare' hfl
  have hround := abs_le.mp (abs_fl_sub_le_of_lt (x := fl amount * fl (1 - shrinkFactor)) (k := 37)
    (abs_lt.mpr ⟨by norm_num; linarith, by norm_num at hread ⊢; linarith⟩) (by norm_num))
  unfold allowedLimit
  norm_num at hread hround ⊢
  constructor <;> linarith

theorem within_of_not_exceeds (hx : |x - n / 1000| ≤ 1 / 10 ^ 5) (ha : (a : ℚ) / 1000 < 10 ^ 11)
    (h : exceeds (fl (a / 1000)) (fl (b / 1000)) x = false) :
    (b : ℚ) / 1000 + n / 1000 ≤ 95 / 100 * (a / 1000) := by
  have hcheck : fl (fl (b / 1000) + x) ≤ allowedLimit (fl (a / 1000)) := by
    simpa [exceeds] using h
  obtain ⟨hlimit, hlimit'⟩ := allowedLimit_le (by positivity) ha
  obtain ⟨hx1, hx2⟩ := abs_le.mp hx
  have hn : (0 : ℚ) ≤ n / 1000 := by positivity
  have hb : (0 : ℚ) ≤ fl (b / 1000) := fl_nonneg (by positivity)
  have hsum := abs_le.mp (abs_fl_sub_le_of_fl_lt (x := fl (b / 1000) + x)
    (by norm_num at hx1; linarith) (hcheck.trans_lt hlimit'))
  have hout : fl ((b : ℚ) / 1000) < 10 ^ 11 := by
    norm_num at hsum hx1 hlimit ⊢
    linarith
  have hout' := abs_le.mp (abs_fl_sub_le_of_fl_lt (x := (b : ℚ) / 1000)
    (by have : (0 : ℚ) ≤ b / 1000 := by positivity
        linarith) hout)
  have hnear : 20 * ((b : ℚ) + n) < 19 * a + 1 := by
    norm_num at hsum hout' hx1 hlimit
    linarith
  have hgrams : 20 * (b + n) ≤ 19 * a := by
    have : 20 * (b + n) < 19 * a + 1 := by exact_mod_cast hnear
    omega
  have hgrams' : 20 * ((b : ℚ) + n) ≤ 19 * a := by exact_mod_cast hgrams
  linarith

/-! ### The totals of a stock -/

/-- The movements are of whole grams, and at most 95 % of what came in has gone out. -/
structure Balanced (t : Letters) (stock : Stock) : Prop where
  grams : ∀ m ∈ stock.movements, ∃ n : ℕ, m.quantityKg = n / 1000
  within : ∀ centerId material, stock.total t centerId material .out ≤
    95 / 100 * stock.total t centerId material .in_

theorem grams_total (h : ∀ m ∈ stock.movements, ∃ n : ℕ, m.quantityKg = n / 1000)
    (centerId material : String) (type : MovementType) :
    ∃ n : ℕ, stock.total t centerId material type = n / 1000 := by
  refine grams_sum fun q hq => ?_
  obtain ⟨m, hm, rfl⟩ := List.mem_map.mp hq
  exact h m (List.mem_of_mem_filter hm)

theorem total_append {movements : List InventoryMovement}
    (hmovements : stock'.movements = stock.movements ++ movements) (centerId material : String)
    (type : MovementType) : stock'.total t centerId material type =
      stock.total t centerId material type +
        (⟨[], movements⟩ : Stock).total t centerId material type := by
  rw [total_eq, total_eq, total_eq, hmovements, List.map_append, List.sum_append]

theorem balanced_in {movements : List InventoryMovement} (h : Balanced t stock)
    (hmovements : stock'.movements = stock.movements ++ movements)
    (hin : ∀ m ∈ movements, m.type = .in_ ∧ ∃ n : ℕ, m.quantityKg = n / 1000) :
    Balanced t stock' := by
  refine ⟨fun m hm => ?_, fun c material => ?_⟩
  · rw [hmovements] at hm
    rcases List.mem_append.mp hm with hm | hm
    · exact h.grams m hm
    · exact (hin m hm).2
  · have hgrams : ∀ m ∈ (⟨[], movements⟩ : Stock).movements, ∃ n : ℕ, m.quantityKg = n / 1000 :=
      fun m hm => (hin m hm).2
    obtain ⟨n, hn⟩ := grams_total (t := t) hgrams c material .in_
    have hout : (⟨[], movements⟩ : Stock).total t c material .out = 0 := by
      unfold Stock.total
      rw [List.filter_eq_nil_iff.mpr fun m hm => by simp [(hin m hm).1]]
      rfl
    have hold := h.within c material
    have hpos : (0 : ℚ) ≤ n / 1000 := by positivity
    rw [total_append hmovements, total_append hmovements, hout, hn]
    linarith

def gone (t : Letters) (centerId c material : String) (materials : List Weighed) : ℚ :=
  (materials.map fun entry => share t centerId entry.1 c material (filed entry.2)).sum

theorem total_outward (c : String) (materials : List Weighed) (origin : Origin) :
    (⟨[], outward centerId origin materials⟩ : Stock).total t c material .out =
      gone t centerId c material materials := by
  rw [total_eq, gone, outward, List.map_map]
  refine congrArg List.sum (List.map_congr_left fun entry _ => ?_)
  simp [InventoryMovement.of, share]

theorem gone_cases {materials : List Weighed}
    (h : (materials.map fun entry => t.norm entry.1).Nodup)
    (centerId c material : String) : gone t centerId c material materials = 0 ∨ ∃ entry ∈ materials,
      centerId = c ∧
      t.norm entry.1 = material ∧ gone t centerId c material materials = filed entry.2 := by
  induction materials with
  | nil => exact .inl rfl
  | cons entry materials ih =>
    obtain ⟨hfirst, hrest⟩ := List.nodup_cons.mp (List.map_cons ▸ h)
    have hcons : gone t centerId c material (entry :: materials) =
        share t centerId entry.1 c material (filed entry.2) +
          gone t centerId c material materials := by
      rw [gone, List.map_cons, List.sum_cons, gone]
    rw [hcons]
    unfold share
    split
    · rename_i hown
      refine .inr ⟨entry, List.mem_cons_self, hown.1, hown.2, ?_⟩
      rcases ih hrest with hzero | ⟨other, hother, -, hsame, -⟩
      · rw [hzero, add_zero]
      · exact absurd (List.mem_map.mpr ⟨other, hother, hsame.trans hown.2.symm⟩) hfirst
    · rw [zero_add]
      rcases ih hrest with hzero | ⟨other, hother, hrow⟩
      · exact .inl hzero
      · exact .inr ⟨other, List.mem_cons_of_mem _ hother, hrow⟩

theorem balanced_out {materials : List Weighed} {origin : Origin} (h : Balanced t stock)
    (hmovements : stock'.movements = stock.movements ++ outward centerId origin materials)
    (happart : (materials.map fun entry => t.norm entry.1).Nodup)
    (hroom : ∀ entry ∈ materials, (∃ n : ℕ, filed entry.2 = n / 1000) ∧
      stock.total t centerId (t.norm entry.1) .out + filed entry.2 ≤
        95 / 100 * stock.total t centerId (t.norm entry.1) .in_) : Balanced t stock' := by
  refine ⟨fun m hm => ?_, fun c material => ?_⟩
  · rw [hmovements] at hm
    rcases List.mem_append.mp hm with hm | hm
    · exact h.grams m hm
    · obtain ⟨entry, hentry, rfl⟩ := List.mem_map.mp hm
      exact (hroom entry hentry).1
  · rw [total_append hmovements, total_append hmovements]
    have hin : (⟨[], outward centerId origin materials⟩ : Stock).total t c material .in_ = 0 := by
      unfold Stock.total
      rw [List.filter_eq_nil_iff.mpr fun m hm => by
        obtain ⟨entry, -, rfl⟩ := List.mem_map.mp hm
        simp]
      rfl
    rw [hin, add_zero, total_outward]
    rcases gone_cases happart centerId c material with
      hzero | ⟨entry, hentry, rfl, rfl, hgone⟩
    · rw [hzero, add_zero]
      exact h.within c material
    · rw [hgone]
      exact (hroom entry hentry).2

/-! ### Steps -/

/-- The weight would pass the check of a sale, by the totals as they are, and is of whole grams. -/
structure Passes (t : Letters) (stock : Stock) (centerId : String) (entry : Weighed) : Prop where
  whole : Whole entry.2
  moderate : stock.total t centerId entry.1 .in_ < 10 ^ 11
  room : exceeds (fl (stock.total t centerId entry.1 .in_))
    (fl (stock.total t centerId entry.1 .out))
    entry.2 = false

theorem room_of_passes (h : Balanced t stock) {entry : Weighed} (hp : Passes t stock centerId entry)
    {y q : ℚ} (hy : decimalOf entry.2 = some y) (hq : kgColumn y = some q) :
    (∃ n : ℕ, filed entry.2 = n / 1000) ∧ stock.total t centerId entry.1 .out + filed entry.2 ≤
      95 / 100 * stock.total t centerId entry.1 .in_ := by
  obtain ⟨n, hn⟩ := hp.whole
  have hfiled : filed entry.2 = n / 1000 := by
    rw [filed, hy, Option.bind_some, hq, Option.getD_some, hp.whole.column hy hq, kilograms_eq hn]
  obtain ⟨a, ha⟩ := grams_total (t := t) h.grams centerId entry.1 .in_
  obtain ⟨b, hb⟩ := grams_total (t := t) h.grams centerId entry.1 .out
  have hmoderate := hp.moderate
  have hroom := hp.room
  rw [ha] at hmoderate hroom ⊢
  rw [hb] at hroom ⊢
  rw [hfiled]
  exact ⟨⟨n, rfl⟩, within_of_not_exceeds hn hmoderate hroom⟩

/-- The sums that the call has read are those of the movements now. -/
def Current (t : Letters) (s : Stage) (stock : Stock) (centerId material : String) : Prop :=
  ∀ type, s.sums (centerId, material, type) = stock.total t centerId material type

/-- The writing call goes by sums that are still true, or takes out what a sale might. -/
def Even (t : Letters) (s : Stage) (stock : Stock) : Op → Prop
  | .recordMovement centerId type quantityKg materialType _ => type = .out →
      Passes t stock centerId (t.norm materialType, quantityKg.val)
  | .sell centerId normMaterial _ _ => Current t s stock centerId normMaterial ∧
      stock.total t centerId normMaterial .in_ < 10 ^ 11
  | .dispatch centerId _ lines => ∀ line ∈ lines, Passes t stock centerId line.2
  | .accept _ _ centerId lines _ => ∀ line ∈ lines, Whole line.2.2 ∧
      Current t s stock centerId line.2.1 ∧ 0 < stock.total t centerId line.2.1 .in_ ∧
        stock.total t centerId line.2.1 .in_ < 10 ^ 11
  | _ => True

theorem balanced_takeOut {lines : List (InventoryItem × Weighed)} {origin : Origin}
    (h : Balanced t stock) (hsorted : Sorted t (lines.map Prod.snd))
    (hpasses : ∀ line ∈ lines, Passes t stock centerId line.2)
    (hstock : stock.takeOut centerId origin lines = some stock') : Balanced t stock' := by
  have hnames : ((lines.map Prod.snd).map fun entry => t.norm entry.1) =
      (lines.map Prod.snd).map Prod.fst :=
    List.map_congr_left fun entry hentry => hsorted.normal entry hentry
  refine balanced_out h (movements_takeOut hstock) (hnames ▸ hsorted.apart) fun entry hentry => ?_
  rw [hsorted.normal entry hentry]
  obtain ⟨line, hline, rfl⟩ := List.mem_map.mp hentry
  obtain ⟨y, q, hy, hq⟩ := column_of_takeOut hstock hline
  exact room_of_passes h (hpasses line hline) hy hq

theorem grams_in {d : Double} {y q : ℚ} (hd : 0 < d.val) (hy : decimalOf d.val = some y)
    (hq : kgColumn y = some q) : ∃ n : ℕ, q = n / 1000 := by
  obtain ⟨rfl, ⟨z, hz⟩, -⟩ := filed_of_column hq
  have hpos := scale3_nonneg (decimal_pos hd hy).le
  rw [hz] at hpos ⊢
  have hz0 : 0 ≤ z := by
    have : (0 : ℚ) ≤ z := by linarith
    exact_mod_cast this
  refine ⟨z.toNat, ?_⟩
  rw [show ((z.toNat : ℕ) : ℚ) = z by exact_mod_cast Int.toNat_of_nonneg hz0]

theorem passes_of_current {entry : Weighed} (hwhole : Whole entry.2)
    (hcurrent : Current t s stock centerId entry.1)
    (hmoderate : stock.total t centerId entry.1 .in_ < 10 ^ 11) (hroom : Room s centerId entry) :
    Passes t stock centerId entry := by
  unfold Room at hroom
  rw [hcurrent .in_, hcurrent .out] at hroom
  exact ⟨hwhole, hmoderate, hroom⟩

theorem fl_total_pos (h : Balanced t stock) (hpos : 0 < stock.total t centerId material .in_)
    (hmoderate : stock.total t centerId material .in_ < 10 ^ 11) :
    0 < fl (stock.total t centerId material .in_) := by
  obtain ⟨a, ha⟩ := grams_total (t := t) h.grams centerId material .in_
  rw [ha] at hpos hmoderate ⊢
  have hone : (1 : ℚ) ≤ a := by
    have ha0 : (0 : ℚ) < a := by linarith
    exact_mod_cast ha0
  have hread := abs_le.mp (abs_fl_sub_le_of_lt (x := (a : ℚ) / 1000) (k := 37)
    (abs_lt.mpr ⟨by norm_num; linarith, hmoderate.trans (by norm_num)⟩) (by norm_num))
  norm_num at hread
  linarith

theorem balanced_effect (h : Balanced t w.stock) (hallowed : Allowed t s i)
    (heven : Even t s w.stock i) (hv : w.effect t o i = some v) : Balanced t v.stock := by
  cases i with
  | recordMovement centerId type quantityKg materialType existingItem =>
    obtain ⟨stock, hstock, hv⟩ := Option.bind_eq_some_iff.mp hv
    cases hv
    obtain ⟨y, q, hy, hq, hmovements⟩ := movements_recordMovement hstock
    cases type with
    | in_ =>
      refine balanced_in h hmovements fun m hm => ?_
      rw [List.mem_singleton.mp hm]
      exact ⟨rfl, grams_in hallowed.2.1 hy hq⟩
    | out =>
      have hone : stock.movements = w.stock.movements ++
          outward centerId .byHand [(materialType, quantityKg.val)] := by
        rw [hmovements, outward, List.map_singleton, filed, hy, Option.bind_some, hq,
          Option.getD_some]
      have hpasses : Passes t w.stock centerId (t.norm materialType, quantityKg.val) := heven rfl
      have hroom := room_of_passes h hpasses hy hq
      refine balanced_out h hone (List.nodup_singleton _) fun entry hentry => ?_
      rw [List.mem_singleton.mp hentry]
      exact hroom
  | sell centerId normMaterial item dto =>
    obtain ⟨stock, hstock, hv⟩ := Option.bind_eq_some_iff.mp hv
    obtain ⟨consolidated, -, hv⟩ := Option.bind_eq_some_iff.mp hv
    split at hv
    · cases hv
      obtain ⟨y, q, hy, hq⟩ := column_of_takeOut hstock (List.mem_singleton_self _)
      have hsorted : Sorted t ([(item, normMaterial, dto.weightKg.val)].map Prod.snd) :=
        ⟨List.nodup_singleton _, fun entry hentry => List.mem_singleton.mp hentry ▸ hallowed.1⟩
      refine balanced_takeOut h hsorted (fun line hline => ?_) hstock
      · rw [List.mem_singleton.mp hline]
        exact passes_of_current (whole_of_column dto.twoDecimals hy hq) heven.1 heven.2 hallowed.2.2
    · cases hv
  | dispatch centerId buyerId lines =>
    change (if _ then none else _) = _ at hv
    split at hv
    · cases hv
    · obtain ⟨stock, hstock, hv⟩ := Option.bind_eq_some_iff.mp hv
      cases hv
      exact balanced_takeOut h hallowed.1 heven hstock
  | accept tx id centerId lines notes =>
    change (if _ then _ else none) = _ at hv
    split at hv
    · obtain ⟨stock, hstock, hv⟩ := Option.bind_eq_some_iff.mp hv
      cases hv
      refine balanced_takeOut h hallowed.1 (fun line hline => ?_) hstock
      obtain ⟨hwhole, hcurrent, hpos, hmoderate⟩ := heven line hline
      refine passes_of_current hwhole hcurrent hmoderate ((hallowed.2.1 line hline).2 ?_)
      rw [hcurrent .in_]
      exact fl_total_pos h hpos hmoderate
    · cases hv
  | credit batch =>
    obtain ⟨stock, hstock, hv⟩ := Option.bind_eq_some_iff.mp hv
    cases hv
    obtain ⟨new, hmovements, hnew⟩ := movements_credit hstock
    refine balanced_in h hmovements fun m hm => ?_
    obtain ⟨hin, -, entry, hentry, hpos, y, hy, hq⟩ := hnew m hm
    obtain ⟨e, -, rfl⟩ := List.mem_map.mp hentry
    exact ⟨hin, grams_in hpos hy hq⟩
  | _ =>
    cases hv
    exact h

/-! ### Every run -/

def Evenly (t : Letters) (c : Race) : RaceEvent → Prop
  | .advance j o => ∀ s i, stages c j = some s → pending c j = some i → o.delivery.applied = true →
      Even t s c.world.stock i
  | _ => True

/-- At most 95 % of what came in of a material has gone out, whatever the order of the calls, where
every write goes by sums that are still true, or takes out what a sale might. -/
theorem mass_is_balanced {es : List RaceEvent} {c : Race} (hbalanced : Balanced t w.stock)
    (heven : Along (system t).step (Evenly t) (quiescent w) es)
    (hrun : run (system t).step (quiescent w) es = some c) (centerId material : String) :
    c.world.stock.total t centerId material .out ≤
      95 / 100 * c.world.stock.total t centerId material .in_ := by
  have hkept : Balanced t c.world.stock := by
    refine run_stages (S := system t) (C := Evenly t) (I := fun w _ => Balanced t w.stock)
      (fun caller => follows_program t caller) (fun w st j h _ => h) ?_ (fun c j h _ => h) ?_
      (fun j u hj => by cases hj) hbalanced heven hrun
    · intro c j o s i h hj hi hallowed hC
      change Balanced t (World.after t c.world i o).stock
      rcases after_cases t c.world i o with hsame | ⟨happlied, v, hv, hsame⟩
      · rw [hsame.stock]
        exact h
      · rw [hsame.stock]
        exact balanced_effect h hallowed (hC s i hj hi happlied) hv
    · intro c d w h _ hw
      rw [stock_outside hw]
      exact h
  exact hkept.within centerId material

/-! ### Runs of one material -/

theorem tenKilograms_balanced : Balanced normalLetters tenKilograms.stock := by
  refine ⟨fun m hm => ⟨10000, ?_⟩, fun c material => ?_⟩
  · rw [List.mem_singleton.mp hm]
    norm_num
  · rw [total_eq, total_eq]
    have hother : (MovementType.in_ == MovementType.out) = false := rfl
    simp only [tenKilograms, List.map_cons, List.map_nil, List.sum_cons, List.sum_nil, hother,
      Bool.and_false, Bool.false_eq_true, if_false]
    split <;> norm_num

/-- `Evenly` as a test, of runs whose only writes are sales. -/
def evenly (c : Race) : RaceEvent → Bool
  | .advance j o =>
    match stages c j, pending c j with
    | some s, some (.sell centerId normMaterial _ _) => !o.delivery.applied ||
        (s.sums (centerId, normMaterial, .in_) ==
            c.world.stock.total normalLetters centerId normMaterial .in_ &&
          s.sums (centerId, normMaterial, .out) ==
            c.world.stock.total normalLetters centerId normMaterial .out &&
          decide (c.world.stock.total normalLetters centerId normMaterial .in_ < 10 ^ 11))
    | some _, some (.recordMovement _ _ _ _ _) => !o.delivery.applied
    | some _, some (.dispatch _ _ _) => !o.delivery.applied
    | some _, some (.accept _ _ _ _ _) => !o.delivery.applied
    | _, _ => true
  | _ => true

theorem evenly_of_test {c : Race} {e : RaceEvent} (h : evenly c e = true) :
    Evenly normalLetters c e := by
  cases e with
  | advance j o =>
    intro s i hj hi happlied
    simp only [evenly, hj, hi, happlied, Bool.not_true, Bool.false_or] at h
    cases i with
    | sell centerId normMaterial item dto =>
      simp only [Bool.and_eq_true, beq_iff_eq, decide_eq_true_eq] at h
      obtain ⟨⟨hin, hout⟩, hmoderate⟩ := h
      refine ⟨fun type => ?_, hmoderate⟩
      cases type with
      | in_ => exact hin
      | out => exact hout
    | recordMovement _ _ _ _ _ => cases h
    | dispatch _ _ _ => cases h
    | accept _ _ _ _ _ => cases h
    | _ => trivial
  | _ => trivial

theorem mass_is_balanced_sold : ∃ c,
    run (system normalLetters).step (quiescent tenKilograms) (sale 0 :: answered 0 5) = some c ∧
      c.world.stock.total normalLetters "center" "PET" .out ≤
        95 / 100 * c.world.stock.total normalLetters "center" "PET" .in_ := by
  obtain ⟨c, hc⟩ := Option.isSome_iff_exists.mp (show (run (system normalLetters).step
    (quiescent tenKilograms) (sale 0 :: answered 0 5)).isSome = true by decide +kernel)
  have heven : Along (system normalLetters).step (Evenly normalLetters) (quiescent tenKilograms)
      (sale 0 :: answered 0 5) := along_mono (fun _ _ h => evenly_of_test h) (by decide +kernel)
  exact ⟨c, hc, mass_is_balanced tenKilograms_balanced heven hc "center" "PET"⟩

theorem ten_lt : 10 < 2 ^ 53 := by norm_num

theorem ten_positive : 0 < (Double.ofNat 10 ten_lt).val := by decide +kernel

/-- Ten kilograms are there that never came in, and a company has asked for them. -/
def tenUnrecorded : World :=
  { tenKilograms with
    stock := ⟨[⟨"center", "PET", 10⟩], []⟩
    transfers :=
      [⟨"transfer", [("PET", 10)], [("PET", 10)], .requested, none, "company", "center"⟩] }

theorem tenUnrecorded_balanced : Balanced normalLetters tenUnrecorded.stock := by
  refine ⟨fun m hm => absurd hm List.not_mem_nil, fun c material => ?_⟩
  simp [Stock.total, tenUnrecorded]

/-- All that came in goes out by hand, and an acceptance lets out what never came in. -/
theorem unchecked_ways_out :
    Balanced normalLetters tenKilograms.stock ∧ Balanced normalLetters tenUnrecorded.stock ∧
    (∃ c, run (system normalLetters).step (quiescent tenKilograms)
      (.start 0 (.createMovement "center" ⟨.out, .ofNat 10 ten_lt, "PET", ten_positive⟩) ::
        answered 0 2) = some c ∧ books c = (0, 10, 10)) ∧
    ∃ c, run (system normalLetters).step (quiescent tenUnrecorded)
      (.start 0 (.acceptTransfer "transfer" "center"
        ⟨[⟨"PET", .ofNat 10 ten_lt, ten_positive⟩], none⟩) :: answered 0 5) = some c ∧
          books c = (0, 0, 10) := by
  refine ⟨tenKilograms_balanced, tenUnrecorded_balanced, ?_, ?_⟩
  · have hrun : (run (system normalLetters).step (quiescent tenKilograms)
        (.start 0 (.createMovement "center" ⟨.out, .ofNat 10 ten_lt, "PET", ten_positive⟩) ::
          answered 0 2)).map books = some (0, 10, 10) := by decide +kernel
    exact Option.map_eq_some_iff.mp hrun
  · have hrun : (run (system normalLetters).step (quiescent tenUnrecorded)
        (.start 0 (.acceptTransfer "transfer" "center"
          ⟨[⟨"PET", .ofNat 10 ten_lt, ten_positive⟩], none⟩) :: answered 0 5)).map books =
            some (0, 0, 10) := by decide +kernel
    exact Option.map_eq_some_iff.mp hrun

end Livora.MassBalance
