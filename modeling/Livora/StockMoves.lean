import Livora.StockAmounts

/-! What the writes of the stock change: a row by its amount, and the movements by theirs. The two
agree in every transaction whose weights are whole grams and which finds its rows as they were
read, and no row falls below zero where it still has what is taken from it. -/

namespace Livora.StockMoves

open DoubleRounding StockBooks StockAmounts KeyedSums

variable {t : Letters} {s s' : Stock} {centerId material materialType name : String}
  {origin : Origin} {type : MovementType} {x y number q : ℚ} {n : ℕ} {row : InventoryItem}

def rowKey (item : InventoryItem) : String × String := (item.centerId, item.materialType)

/-- What is held of a material beside what the movements say. -/
def gap (t : Letters) (s : Stock) (centerId material : String) : ℚ :=
  s.held t centerId material - (s.total t centerId material .in_ - s.total t centerId material .out)

/-- The rows have one name each, and amounts of grams. -/
structure Tidy (s : Stock) : Prop where
  keys : (s.items.map rowKey).Nodup
  filed : ∀ item ∈ s.items, Filed item.quantityKg

/-! ### Rows -/

theorem find_some (h : s.find centerId name = some row) :
    row ∈ s.items ∧ row.centerId = centerId ∧ row.materialType = name := by
  have hrow := List.find?_some h
  simp only [Bool.and_eq_true, beq_iff_eq] at hrow
  exact ⟨List.mem_of_find?_eq_some h, hrow⟩

theorem find_none (h : s.find centerId name = none) :
    ∀ item ∈ s.items, rowKey item ≠ (centerId, name) := by
  intro item hitem hkey
  have hnot := List.find?_eq_none.mp h item hitem
  obtain ⟨hc, hm⟩ := Prod.mk.inj hkey
  simp [hc, hm] at hnot

theorem find_write_of_ne {centerId' name' : String} (h : (centerId', name') ≠ (centerId, name)) :
    (s.write centerId name q).find centerId' name' = s.find centerId' name' := by
  unfold Stock.find Stock.write
  dsimp only
  induction s.items with
  | nil => rfl
  | cons item items ih =>
    rw [List.map_cons, List.find?_cons, List.find?_cons, ih]
    by_cases hitem : item.centerId = centerId ∧ item.materialType = name
    · rw [if_pos hitem]
      obtain ⟨rfl, rfl⟩ := hitem
      have hne : (item.centerId == centerId' && item.materialType == name') = false := by
        rw [Bool.eq_false_iff]
        intro hother
        simp only [Bool.and_eq_true, beq_iff_eq] at hother
        exact h (Prod.ext hother.1.symm hother.2.symm)
      rw [hne]
    · rw [if_neg hitem]

theorem held_eq : s.held t centerId material =
    (s.items.map fun item =>
      if item.of t centerId material = true then item.quantityKg else 0).sum :=
  sum_filter _ _ _

theorem total_eq : s.total t centerId material type =
    (s.movements.map fun m => if (m.of t centerId material && m.type == type) = true then
      m.quantityKg else 0).sum :=
  sum_filter _ _ _

theorem tidy_write (h : Tidy s) (hq : Filed q) : Tidy (s.write centerId name q) := by
  have hkeys : (s.write centerId name q).items.map rowKey = s.items.map rowKey := by
    rw [Stock.write, List.map_map]
    refine List.map_congr_left fun item _ => ?_
    dsimp only [Function.comp]
    split <;> rfl
  refine ⟨hkeys ▸ h.keys, fun item hitem => ?_⟩
  obtain ⟨old, hold, rfl⟩ := List.mem_map.mp hitem
  split
  · exact hq
  · exact h.filed old hold

theorem held_write (h : Tidy s) (hrow : s.find centerId name = some row) (c m : String) :
    (s.write centerId name q).held t c m =
      s.held t c m + if centerId = c ∧ t.norm name = m then q - row.quantityKg else 0 := by
  obtain ⟨hmem, rfl, rfl⟩ := find_some hrow
  let share : InventoryItem → ℚ := fun item => if item.of t c m = true then item.quantityKg else 0
  let written : InventoryItem → InventoryItem := fun item =>
    if item.centerId = row.centerId ∧ item.materialType = row.materialType then
      { item with quantityKg := q }
    else item
  have hsum : (s.items.map (share ∘ written)).sum =
      (s.items.map share).sum + ((share ∘ written) row - share row) := by
    refine sum_map_set h.keys hmem fun item _ hne => congrArg share (if_neg ?_)
    rintro ⟨hc, hm⟩
    exact hne (Prod.ext hc hm)
  have hown : (share ∘ written) row - share row =
      if row.centerId = c ∧ t.norm row.materialType = m then q - row.quantityKg else 0 := by
    have hrow : written row = { row with quantityKg := q } := if_pos ⟨rfl, rfl⟩
    change share (written row) - share row = _
    rw [hrow]
    by_cases hof : row.centerId = c ∧ t.norm row.materialType = m
    · simp [share, InventoryItem.of, hof]
    · simp [share, InventoryItem.of, hof]
  rw [held_eq, held_eq, Stock.write, List.map_map, ← hown]
  exact hsum

theorem total_log (c m : String) (type' : MovementType) :
    (⟨s.items, s.movements ++ [⟨centerId, type, q, name, origin⟩]⟩ : Stock).total t c m type' =
      s.total t c m type' + if (centerId = c ∧ t.norm name = m) ∧ type = type' then q else 0 := by
  rw [total_eq, total_eq, List.map_append, List.sum_append]
  congr 1
  simp [InventoryMovement.of]

/-! ### Single writes -/

theorem increment_some (h : s.increment centerId name x = some s') : ∃ row q,
    s.find centerId name = some row ∧ kgColumn (row.quantityKg + x) = some q ∧
      s' = s.write centerId name q := by
  unfold Stock.increment at h
  obtain ⟨row, hrow, h⟩ := Option.bind_eq_some_iff.mp h
  obtain ⟨q, hq, h⟩ := Option.bind_eq_some_iff.mp h
  exact ⟨row, q, hrow, hq, (Option.some.inj h).symm⟩

theorem set_some (h : s.set centerId name number = some s') : ∃ row y q,
    s.find centerId name = some row ∧ decimalOf number = some y ∧ kgColumn y = some q ∧
      s' = s.write centerId name q := by
  unfold Stock.set at h
  obtain ⟨row, hrow, h⟩ := Option.bind_eq_some_iff.mp h
  obtain ⟨y, hy, h⟩ := Option.bind_eq_some_iff.mp h
  obtain ⟨q, hq, h⟩ := Option.bind_eq_some_iff.mp h
  exact ⟨row, y, q, hrow, hy, hq, (Option.some.inj h).symm⟩

theorem create_some (h : s.create centerId name number = some s') : ∃ y q,
    s.find centerId name = none ∧ decimalOf number = some y ∧ kgColumn y = some q ∧
      s' = { s with items := s.items ++ [⟨centerId, name, q⟩] } := by
  unfold Stock.create at h
  split at h
  · cases h
  · rename_i hnone
    obtain ⟨y, hy, h⟩ := Option.bind_eq_some_iff.mp h
    obtain ⟨q, hq, h⟩ := Option.bind_eq_some_iff.mp h
    exact ⟨y, q, by simpa using hnone, hy, hq, (Option.some.inj h).symm⟩

theorem log_some (h : s.log centerId type number name origin = some s') : ∃ y q,
    decimalOf number = some y ∧ kgColumn y = some q ∧
      s' = { s with movements := s.movements ++ [⟨centerId, type, q, name, origin⟩] } := by
  unfold Stock.log at h
  obtain ⟨y, hy, h⟩ := Option.bind_eq_some_iff.mp h
  obtain ⟨q, hq, h⟩ := Option.bind_eq_some_iff.mp h
  exact ⟨y, q, hy, hq, (Option.some.inj h).symm⟩

/-! ### The movements alone -/

theorem movements_set (h : s.set centerId name number = some s') : s'.movements = s.movements := by
  obtain ⟨row, y, q, -, -, -, rfl⟩ := set_some h
  rfl

theorem movements_create (h : s.create centerId name number = some s') :
    s'.movements = s.movements := by
  obtain ⟨y, q, -, -, -, rfl⟩ := create_some h
  rfl

theorem movements_increment (h : s.increment centerId name x = some s') :
    s'.movements = s.movements := by
  obtain ⟨row, q, -, -, rfl⟩ := increment_some h
  rfl

theorem movements_recordMovement {existingItem : Option InventoryItem}
    (h : s.recordMovement centerId type x name existingItem = some s') :
    ∃ y q, decimalOf x = some y ∧ kgColumn y = some q ∧
      s'.movements = s.movements ++ [⟨centerId, type, q, name, .byHand⟩] := by
  unfold Stock.recordMovement at h
  obtain ⟨mid, hmid, h⟩ := Option.bind_eq_some_iff.mp h
  obtain ⟨y, q, hy, hq, rfl⟩ := log_some hmid
  refine ⟨y, q, hy, hq, ?_⟩
  cases existingItem with
  | none => exact movements_create h
  | some item => exact movements_set h

theorem movements_creditOne {entry : Weighed} (h : s.creditOne t centerId origin entry = some s') :
    ∃ y q, decimalOf entry.2 = some y ∧ kgColumn y = some q ∧
      s'.movements = s.movements ++ [⟨centerId, .in_, q, t.norm entry.1, origin⟩] := by
  unfold Stock.creditOne at h
  obtain ⟨mid, hmid, h⟩ := Option.bind_eq_some_iff.mp h
  obtain ⟨y, q, hy, hq, rfl⟩ := log_some h
  have hsame : mid.movements = s.movements := by
    unfold Stock.bringIn at hmid
    split at hmid
    · obtain ⟨y, -, hmid⟩ := Option.bind_eq_some_iff.mp hmid
      exact movements_increment hmid
    · exact movements_create hmid
  exact ⟨y, q, hy, hq, by rw [hsame]⟩

theorem movements_credit {materials : List Weighed}
    (h : s.credit t centerId origin materials = some s') :
    ∃ new, s'.movements = s.movements ++ new ∧ ∀ m ∈ new, m.type = .in_ ∧ m.origin = origin ∧
      ∃ entry ∈ materials, 0 < entry.2 ∧ ∃ y, decimalOf entry.2 = some y ∧
        kgColumn y = some m.quantityKg := by
  unfold Stock.credit at h
  have hpos : ∀ entry ∈ materials.filter fun entry => decide (0 < entry.2),
      entry ∈ materials ∧ 0 < entry.2 := fun entry hentry => by
        simpa using List.mem_filter.mp hentry
  generalize (materials.filter fun entry => decide (0 < entry.2)) = entries at h hpos
  induction entries generalizing s with
  | nil =>
    cases h
    exact ⟨[], (List.append_nil _).symm, fun _ hm => absurd hm List.not_mem_nil⟩
  | cons entry entries ih =>
    rw [List.foldlM_cons] at h
    obtain ⟨mid, hmid, h⟩ := Option.bind_eq_some_iff.mp h
    obtain ⟨y, q, hy, hq, hfirst⟩ := movements_creditOne hmid
    obtain ⟨new, hnew, hall⟩ := ih h fun e he => hpos e (List.mem_cons_of_mem _ he)
    refine ⟨⟨centerId, .in_, q, t.norm entry.1, origin⟩ :: new, by rw [hnew, hfirst]; simp,
      fun m hm => ?_⟩
    rcases List.mem_cons.mp hm with rfl | hm
    · obtain ⟨hmem, hlarge⟩ := hpos entry List.mem_cons_self
      exact ⟨rfl, rfl, entry, hmem, hlarge, y, hy, hq⟩
    · exact hall m hm

theorem movements_decrements {lines : List (InventoryItem × Weighed)}
    (h : lines.foldlM (fun s line => s.decrement line.1 line.2.2) s = some s') :
    s'.movements = s.movements := by
  induction lines generalizing s with
  | nil =>
    cases h
    rfl
  | cons line lines ih =>
    rw [List.foldlM_cons] at h
    obtain ⟨mid, hmid, h⟩ := Option.bind_eq_some_iff.mp h
    obtain ⟨y, -, hmid⟩ := Option.bind_eq_some_iff.mp hmid
    rw [ih h, movements_increment hmid]

def filed (x : ℚ) : ℚ := ((decimalOf x).bind kgColumn).getD 0

def outward (centerId : String) (origin : Origin) (materials : List Weighed) :
    List InventoryMovement :=
  materials.map fun entry => ⟨centerId, .out, filed entry.2, entry.1, origin⟩

theorem movements_takeOut {lines : List (InventoryItem × Weighed)}
    (h : s.takeOut centerId origin lines = some s') :
    s'.movements = s.movements ++ outward centerId origin (lines.map Prod.snd) := by
  unfold Stock.takeOut at h
  obtain ⟨mid, hmid, hlogs⟩ := Option.bind_eq_some_iff.mp h
  rw [← movements_decrements hmid]
  clear h hmid
  induction lines generalizing mid with
  | nil =>
    cases hlogs
    exact (List.append_nil _).symm
  | cons line lines ih =>
    rw [List.foldlM_cons] at hlogs
    obtain ⟨next, hnext, hlogs⟩ := Option.bind_eq_some_iff.mp hlogs
    obtain ⟨y, q, hy, hq, rfl⟩ := log_some hnext
    have hfiled : filed line.2.2 = q := by
      rw [filed, hy, Option.bind_some, hq]
      rfl
    rw [ih _ hlogs, outward, outward, List.map_cons, List.map_cons, hfiled]
    simp

/-! ### What is held, and what was moved -/

/-- The weight, where the movement is of the centre and the material. -/
def share (t : Letters) (centerId name c m : String) (x : ℚ) : ℚ :=
  if centerId = c ∧ t.norm name = m then x else 0

/-- The rows are what the movements say, to the gram, and none is below zero. -/
structure Sound (t : Letters) (s : Stock) : Prop where
  tidy : Tidy s
  balanced : ∀ c m, gap t s c m = 0
  nonneg : ∀ item ∈ s.items, 0 ≤ item.quantityKg

theorem gap_write (h : Tidy s) (hrow : s.find centerId name = some row) (c m : String) :
    gap t (s.write centerId name q) c m =
      gap t s c m + share t centerId name c m (q - row.quantityKg) := by
  have hheld := held_write (t := t) (q := q) h hrow c m
  unfold gap share
  rw [hheld]
  change _ - (s.total t c m .in_ - s.total t c m .out) = _
  ring

theorem gap_create {q : ℚ} (c m : String) :
    gap t { s with items := s.items ++ [⟨centerId, name, q⟩] } c m =
      gap t s c m + share t centerId name c m q := by
  have hheld : ({ s with items := s.items ++ [⟨centerId, name, q⟩] } : Stock).held t c m =
      s.held t c m + share t centerId name c m q := by
    rw [held_eq, held_eq, List.map_append, List.sum_append]
    congr 1
    simp [InventoryItem.of, share]
  unfold gap
  rw [hheld]
  change _ - (s.total t c m .in_ - s.total t c m .out) = _
  ring

theorem gap_log (c m : String) :
    gap t { s with movements := s.movements ++ [⟨centerId, type, q, name, origin⟩] } c m =
      gap t s c m - share t centerId name c m (if type = .in_ then q else -q) := by
  unfold gap
  rw [total_log, total_log]
  change s.held t c m - _ = _
  unfold share
  cases type <;> by_cases hof : centerId = c ∧ t.norm name = m <;> simp [hof] <;> ring

theorem tidy_create (h : Tidy s) (hnone : s.find centerId name = none) (hq : Filed q) :
    Tidy { s with items := s.items ++ [⟨centerId, name, q⟩] } := by
  constructor
  · rw [List.map_append, List.nodup_append]
    refine ⟨h.keys, List.nodup_singleton _, ?_⟩
    intro key hkey other hother he
    obtain ⟨item, hitem, rfl⟩ := List.mem_map.mp hkey
    rw [List.map_singleton, List.mem_singleton] at hother
    exact find_none hnone item hitem (he.trans hother)
  · intro item hitem
    rcases List.mem_append.mp hitem with hitem | hitem
    · exact h.filed item hitem
    · rw [List.mem_singleton.mp hitem]
      exact hq

theorem nonneg_write (h : ∀ item ∈ s.items, 0 ≤ item.quantityKg) (hq : 0 ≤ q) :
    ∀ item ∈ (s.write centerId name q).items, 0 ≤ item.quantityKg := by
  intro item hitem
  obtain ⟨old, hold, rfl⟩ := List.mem_map.mp hitem
  split
  · exact hq
  · exact h old hold

/-! ### Transactions -/

theorem log_whole (hx : Whole x) (h : s.log centerId type x name origin = some s') :
    s' = { s with movements := s.movements ++ [⟨centerId, type, kilograms x, name, origin⟩] } := by
  obtain ⟨y, q, hy, hq, rfl⟩ := log_some h
  rw [hx.column hy hq]

theorem sound_recordMovement {existingItem : Option InventoryItem} (h : Sound t s) (hx : Whole x)
    (hread : ∀ item, existingItem = some item → s.find centerId name = some item)
    (hcheck : type = .out → ∃ item, existingItem = some item ∧ ¬ fl item.quantityKg < x)
    (hs : s.recordMovement centerId type x name existingItem = some s') : Sound t s' := by
  unfold Stock.recordMovement at hs
  obtain ⟨mid, hmid, hs⟩ := Option.bind_eq_some_iff.mp hs
  obtain rfl := log_whole hx hmid
  have htidy : Tidy { s with
      movements := s.movements ++ [⟨centerId, type, kilograms x, name, .byHand⟩] } :=
    ⟨h.tidy.keys, h.tidy.filed⟩
  cases existingItem with
  | none =>
    obtain ⟨y, q, hnone, hy, hq, rfl⟩ := create_some hs
    have hin : type = .in_ := by
      cases type with
      | in_ => rfl
      | out =>
        obtain ⟨item, hitem, -⟩ := hcheck rfl
        cases hitem
    subst hin
    obtain rfl := hx.column hy hq
    refine ⟨tidy_create htidy hnone (filed_of_column hq).2, fun c m => ?_, fun item hitem => ?_⟩
    · rw [gap_create, gap_log, h.balanced, if_pos rfl]
      ring
    · rcases List.mem_append.mp hitem with hitem | hitem
      · exact h.nonneg item hitem
      · rw [List.mem_singleton.mp hitem]
        exact hx.nonneg
  | some item =>
    obtain ⟨hmem, rfl, rfl⟩ := find_some (hread item rfl)
    obtain ⟨row, y, q, hrow, hy, hq, rfl⟩ := set_some hs
    have hsame : row = item := Option.some.inj (hrow.symm.trans (hread item rfl))
    subst hsame
    have hfiled := h.tidy.filed row hmem
    have hnew : q = row.quantityKg + (if type = .in_ then kilograms x else -kilograms x) := by
      cases type with
      | in_ => exact hx.number_add hfiled hy hq
      | out =>
        obtain ⟨item, hitem, hfl⟩ := hcheck rfl
        cases hitem
        rw [hx.number_sub hfiled hfl hy hq, if_neg (by nofun), sub_eq_add_neg]
    have hpos : 0 ≤ q := by
      cases type with
      | in_ =>
        have := hx.nonneg
        have := h.nonneg row hmem
        rw [hnew, if_pos rfl]
        linarith
      | out =>
        obtain ⟨item, hitem, hfl⟩ := hcheck rfl
        cases hitem
        have := hx.le_of_not_short hfiled hfl
        rw [hnew, if_neg (by nofun)]
        linarith
    refine ⟨tidy_write htidy (filed_of_column hq).2, fun c m => ?_, nonneg_write h.nonneg hpos⟩
    rw [gap_write htidy hrow, gap_log, h.balanced, hnew]
    unfold share
    split <;> ring

theorem sound_creditOne {entry : Weighed} (h : Sound t s)
    (hwhole : ∀ y q, decimalOf entry.2 = some y → kgColumn y = some q → Whole entry.2)
    (hs : s.creditOne t centerId origin entry = some s') : Sound t s' := by
  unfold Stock.creditOne at hs
  obtain ⟨mid, hmid, hs⟩ := Option.bind_eq_some_iff.mp hs
  obtain ⟨y, q, hy, hq, -⟩ := log_some hs
  have hx := hwhole y q hy hq
  obtain rfl := log_whole hx hs
  have hpos := hx.nonneg
  unfold Stock.bringIn at hmid
  split at hmid
  · rename_i item hitem
    obtain ⟨y, hy, hmid⟩ := Option.bind_eq_some_iff.mp hmid
    obtain ⟨hmem, rfl, hname⟩ := find_some hitem
    obtain ⟨row, q, hrow, hq, rfl⟩ := increment_some hmid
    have hsame : row = item := by
      rw [hname] at hrow
      exact Option.some.inj (hrow.symm.trans hitem)
    subst hsame
    have hnew := hx.column_add hy (h.tidy.filed row hmem) hq
    have hold := h.nonneg row hmem
    have htidy : Tidy (s.write row.centerId row.materialType q) :=
      tidy_write h.tidy (filed_of_column hq).2
    refine ⟨⟨htidy.keys, htidy.filed⟩, fun c m => ?_, nonneg_write h.nonneg (by linarith)⟩
    rw [gap_log, gap_write h.tidy hrow, h.balanced, hnew, if_pos rfl, hname, add_sub_cancel_left]
    ring
  · rename_i hnone
    obtain ⟨y, q, -, hy, hq, rfl⟩ := create_some hmid
    obtain rfl := hx.column hy hq
    have htidy := tidy_create h.tidy hnone (filed_of_column hq).2
    refine ⟨⟨htidy.keys, htidy.filed⟩, fun c m => ?_, fun item hitem => ?_⟩
    · rw [gap_log, gap_create, h.balanced, if_pos rfl]
      ring
    · rcases List.mem_append.mp hitem with hitem | hitem
      · exact h.nonneg item hitem
      · rw [List.mem_singleton.mp hitem]
        exact hpos

theorem sound_credit {materials : List Weighed} (h : Sound t s)
    (hwhole : ∀ entry ∈ materials, ∀ y q, decimalOf entry.2 = some y → kgColumn y = some q →
      Whole entry.2)
    (hs : s.credit t centerId origin materials = some s') : Sound t s' := by
  unfold Stock.credit at hs
  have hwhole : ∀ entry ∈ materials.filter fun entry => decide (0 < entry.2), ∀ y q,
      decimalOf entry.2 = some y → kgColumn y = some q → Whole entry.2 :=
    fun entry hentry => hwhole entry (List.mem_of_mem_filter hentry)
  generalize (materials.filter fun entry => decide (0 < entry.2)) = entries at hs hwhole
  induction entries generalizing s with
  | nil =>
    cases hs
    exact h
  | cons entry entries ih =>
    rw [List.foldlM_cons] at hs
    obtain ⟨mid, hmid, hs⟩ := Option.bind_eq_some_iff.mp hs
    exact ih (sound_creditOne h (hwhole entry List.mem_cons_self) hmid) hs
      fun e he => hwhole e (List.mem_cons_of_mem _ he)

/-- The sum of the weights that are of the centre and the material. -/
def shares (t : Letters) (centerId c m : String) (lines : List (InventoryItem × Weighed)) : ℚ :=
  (lines.map fun line => share t centerId line.2.1 c m (kilograms line.2.2)).sum

/-- The lines are of rows of the centre, each under the name of its material, and all of different
materials. -/
structure Fitting (t : Letters) (centerId : String) (lines : List (InventoryItem × Weighed)) :
    Prop where
  row : ∀ line ∈ lines, line.1.centerId = centerId ∧ t.norm line.1.materialType = t.norm line.2.1
  apart : (lines.map fun line => t.norm line.2.1).Nodup
  whole : ∀ line ∈ lines, Whole line.2.2

def Covered (s : Stock) (lines : List (InventoryItem × Weighed)) : Prop :=
  ∀ line ∈ lines, ∀ row, s.find line.1.centerId line.1.materialType = some row →
    ¬ fl row.quantityKg < line.2.2

theorem decrements {lines : List (InventoryItem × Weighed)} (htidy : Tidy s)
    (hnonneg : ∀ item ∈ s.items, 0 ≤ item.quantityKg) (hf : Fitting t centerId lines)
    (hc : Covered s lines)
    (hs : lines.foldlM (fun s line => s.decrement line.1 line.2.2) s = some s') :
    Tidy s' ∧ (∀ item ∈ s'.items, 0 ≤ item.quantityKg) ∧ s'.movements = s.movements ∧
      ∀ c m, gap t s' c m = gap t s c m - shares t centerId c m lines := by
  induction lines generalizing s with
  | nil =>
    cases hs
    exact ⟨htidy, hnonneg, rfl, fun c m => (sub_zero _).symm⟩
  | cons line lines ih =>
    rw [List.foldlM_cons] at hs
    obtain ⟨mid, hmid, hs⟩ := Option.bind_eq_some_iff.mp hs
    obtain ⟨y, hy, hmid⟩ := Option.bind_eq_some_iff.mp hmid
    obtain ⟨row, q, hrow, hq, rfl⟩ := increment_some hmid
    obtain ⟨hmem, -, -⟩ := find_some hrow
    obtain ⟨hcenter, hname⟩ := hf.row line List.mem_cons_self
    have hx := hf.whole line List.mem_cons_self
    have hfiled := htidy.filed row hmem
    have hnew := hx.column_sub hy hfiled hq
    have hcover := hx.le_of_not_short hfiled (hc line List.mem_cons_self row hrow)
    obtain ⟨hfirst, hrest⟩ := List.nodup_cons.mp (List.map_cons ▸ hf.apart)
    have hfitting : Fitting t centerId lines :=
      ⟨fun l hl => hf.row l (List.mem_cons_of_mem _ hl), hrest,
        fun l hl => hf.whole l (List.mem_cons_of_mem _ hl)⟩
    -- the other lines are of other rows
    have hcovered : Covered (s.write line.1.centerId line.1.materialType q) lines := by
      intro l hl other hother
      refine hc l (List.mem_cons_of_mem _ hl) other ?_
      rw [find_write_of_ne] at hother
      · exact hother
      · intro he
        obtain ⟨-, hlname⟩ := hf.row l (List.mem_cons_of_mem _ hl)
        refine hfirst (List.mem_map.mpr ⟨l, hl, ?_⟩)
        rw [← hlname, (Prod.mk.inj he).2, hname]
    obtain ⟨h1, h2, h3, h4⟩ := ih (tidy_write htidy (filed_of_column hq).2)
      (nonneg_write hnonneg (by linarith)) hfitting hcovered hs
    refine ⟨h1, h2, h3, fun c m => ?_⟩
    rw [h4, gap_write htidy hrow, hnew, shares, shares, List.map_cons, List.sum_cons]
    unfold share
    rw [hcenter, hname]
    split <;> ring

theorem logs {lines : List (InventoryItem × Weighed)} (hwhole : ∀ line ∈ lines, Whole line.2.2)
    (hs : lines.foldlM (fun s line => s.log centerId .out line.2.2 line.2.1 origin) s = some s') :
    s' = { s with movements := s.movements ++ lines.map fun line =>
      ⟨centerId, .out, kilograms line.2.2, line.2.1, origin⟩ } := by
  induction lines generalizing s with
  | nil =>
    cases hs
    simp
  | cons line lines ih =>
    rw [List.foldlM_cons] at hs
    obtain ⟨mid, hmid, hs⟩ := Option.bind_eq_some_iff.mp hs
    obtain rfl := log_whole (hwhole line List.mem_cons_self) hmid
    rw [ih (fun l hl => hwhole l (List.mem_cons_of_mem _ hl)) hs]
    simp

theorem gap_logs (c m : String) (lines : List (InventoryItem × Weighed)) :
    gap t { s with movements := s.movements ++ lines.map fun line =>
      ⟨centerId, .out, kilograms line.2.2, line.2.1, origin⟩ } c m =
        gap t s c m + shares t centerId c m lines := by
  induction lines generalizing s with
  | nil => simp [shares]
  | cons line lines ih =>
    have hfirst := ih (s := { s with movements := s.movements ++
      [⟨centerId, .out, kilograms line.2.2, line.2.1, origin⟩] })
    rw [gap_log, if_neg (by nofun)] at hfirst
    simp only [List.append_assoc, List.singleton_append] at hfirst
    rw [List.map_cons, hfirst, shares, shares, List.map_cons, List.sum_cons]
    unfold share
    split <;> ring

theorem sound_takeOut {lines : List (InventoryItem × Weighed)} (h : Sound t s)
    (hf : Fitting t centerId lines) (hc : Covered s lines)
    (hs : s.takeOut centerId origin lines = some s') : Sound t s' := by
  unfold Stock.takeOut at hs
  obtain ⟨mid, hmid, hs⟩ := Option.bind_eq_some_iff.mp hs
  obtain ⟨htidy, hnonneg, -, hgap⟩ := decrements h.tidy h.nonneg hf hc hmid
  obtain rfl := logs hf.whole hs
  refine ⟨⟨htidy.keys, htidy.filed⟩, fun c m => ?_, hnonneg⟩
  rw [gap_logs, hgap, h.balanced]
  ring

end Livora.StockMoves
