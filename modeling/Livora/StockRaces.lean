import Livora.ProgramPools
import Livora.StockMoves
import Livora.StockStages

/-! The calls about the stock of the centres against one database, in any order of their steps. What
a centre has of a material is what came in less what went out, and nothing falls below zero, along
every run of weights of whole grams in which a movement by hand finds its row as it was read, and
whatever takes material out finds that its rows still have it. -/

namespace Livora.StockRaces

open DoubleRounding TransitionRuns EffectPrograms ProgramPools ProgramPools.System StockBooks
open StockAmounts StockMoves StockServices StockStages CenterBooks
open StoreBooks (Failure)
open PinVerification (Delivery)
open BackOffice (User)

inductive Outside where
  /-- A company asks a centre for materials. -/
  | request (row : B2bTransfer)
  | amend (users : List User) (consolidated : List ConsolidatedBatch)
  /-- The connection of a transaction is lost, or its time is up. -/
  | abort (tx : ℕ)

def outside (w : World) : Outside → Option World
  | .request row =>
    if row.status = .requested ∧ w.findTransfer row.id = none then
      some { w with transfers := w.transfers ++ [row] }
    else none
  | .amend users consolidated => some { w with users := users, consolidated := consolidated }
  | .abort tx => some (w.close tx)

def system (t : Letters) : System Caller World Outcome Outside Stage Op
    (fun i => Except Failure (Reply i)) (Except Failure Answer) where
  program caller := (program t caller).run
  serve := World.serve t
  outside := outside
  protocol := protocol t
  first := .first

abbrev Race := Pool World
  (Task Stage Op (fun i => Except Failure (Reply i)) (Except Failure Answer))

abbrev RaceEvent := Event Caller Outcome Outside

def quiescent (w : World) : Race := ⟨w, fun _ => none⟩

variable {t : Letters} {w w' v : World} {st : ℕ → Option Stage} {j : ℕ} {s : Stage}
  {i : Op} {o : Outcome}

/-! ### What a call writes -/

/-- The stock, the transfers and the certificates are the same. -/
structure SameBooks (w w' : World) : Prop where
  stock : w'.stock = w.stock
  transfers : w'.transfers = w.transfers
  certificates : w'.certificates = w.certificates

theorem SameBooks.refl (w : World) : SameBooks w w := ⟨rfl, rfl, rfl⟩

theorem sameBooks_close (w : World) (tx : ℕ) : SameBooks w (w.close tx) := ⟨rfl, rfl, rfl⟩

theorem effect_of_attempt (h : w.attempt t o i = some v) : w.effect t o i = some v := by
  unfold World.attempt at h
  split at h
  · exact h
  · cases h

theorem after_cases (t : Letters) (w : World) (i : Op) (o : Outcome) :
    SameBooks w (w.after t i o) ∨ o.delivery.applied = true ∧ ∃ v, w.effect t o i = some v ∧
      SameBooks v (w.after t i o) := by
  have hwrite : w.update o.delivery (fun w => (w.attempt t o i).getD w) = w ∨
      o.delivery.applied = true ∧ w.effect t o i =
        some (w.update o.delivery fun w => (w.attempt t o i).getD w) := by
    unfold World.update
    split
    · rename_i happlied
      dsimp only
      cases hattempt : w.attempt t o i with
      | none => exact .inl rfl
      | some v => exact .inr ⟨happlied, effect_of_attempt hattempt⟩
    · exact .inl rfl
  have hplain : SameBooks w (w.update o.delivery fun w => (w.attempt t o i).getD w) ∨
      o.delivery.applied = true ∧ ∃ v, w.effect t o i = some v ∧
        SameBooks v (w.update o.delivery fun w => (w.attempt t o i).getD w) := by
    rcases hwrite with hsame | ⟨happlied, heffect⟩
    · exact .inl (hsame.symm ▸ .refl w)
    · exact .inr ⟨happlied, _, heffect, .refl _⟩
  cases i with
  | begin =>
    refine .inl ?_
    unfold World.after World.update
    dsimp only
    split
    · exact ⟨rfl, rfl, rfl⟩
    · exact .refl w
  | lockItems tx centerId names =>
    refine .inl ?_
    change SameBooks w (if w.transactions tx then _ else w)
    split
    · split
      · exact ⟨rfl, rfl, rfl⟩
      · exact sameBooks_close w tx
    · exact .refl w
  | sumByMaterial tx centerId names =>
    refine .inl ?_
    change SameBooks w (if o.delivery = .done then w else w.close tx)
    split
    · exact .refl w
    · exact sameBooks_close w tx
  | accept tx id centerId lines notes =>
    change SameBooks w (if w.transactions tx then _ else w) ∨ _ ∧ ∃ v, _ ∧
      SameBooks v (if w.transactions tx then _ else w)
    split
    · rcases hplain with hsame | ⟨happlied, v, heffect, hsame⟩
      · exact .inl ⟨hsame.stock, hsame.transfers, hsame.certificates⟩
      · exact .inr ⟨happlied, v, heffect, ⟨hsame.stock, hsame.transfers, hsame.certificates⟩⟩
    · exact .inl (.refl w)
  | rollback tx => exact .inl (sameBooks_close w tx)
  | _ => exact hplain

/-! ### What was read -/

/-- The rows are of the centres and the materials that they were read for. -/
def Fits (t : Letters) (s : Stage) : Prop :=
  ∀ row ∈ s.rows, row.2.2.centerId = row.1 ∧ t.norm row.2.2.materialType = t.norm row.2.1

theorem fits_append {rows : List (String × String × InventoryItem)} (h : Fits t s)
    (hrows : ∀ row ∈ rows, row.2.2.centerId = row.1 ∧
      t.norm row.2.2.materialType = t.norm row.2.1) :
    Fits t { s with rows := s.rows ++ rows } := by
  intro row hrow
  rcases List.mem_append.mp hrow with hrow | hrow
  · exact h row hrow
  · exact hrows row hrow

theorem fits_next (h : Fits t s) : Fits t (next t s i (w.reply t i o)) := by
  cases hr : w.reply t i o with
  | error e => cases i <;> exact h
  | ok a =>
    cases i with
    | findInsensitive centerId name =>
      cases a with
      | none => exact h
      | some item =>
        refine fits_append h fun row hrow => ?_
        rw [List.mem_singleton.mp hrow]
        obtain ⟨-, hfound⟩ := Delivery.answer_ok hr
        have hmem : item ∈ w.stock.matching t centerId name := by
          unfold World.findInsensitive at hfound
          rcases Option.or_eq_some_iff.mp hfound with hget | ⟨-, hhead⟩
          · exact List.mem_of_getElem? hget
          · exact List.mem_of_mem_head? hhead
        obtain ⟨-, hmatch⟩ := List.mem_filter.mp hmem
        obtain ⟨hcenter, hname⟩ := Bool.and_eq_true_iff.mp hmatch
        exact ⟨beq_iff_eq.mp hcenter, Letters.norm_eq_of_insensitive hname⟩
    | lockItems tx centerId names =>
      refine fits_append h fun row hrow => ?_
      obtain ⟨item, hitem, rfl⟩ := List.mem_map.mp hrow
      have hnamed : w.named t centerId names = a := by
        change (if _ then _ else _) = _ at hr
        split at hr
        · exact (Delivery.answer_ok hr).2
        · cases hr
      rw [← hnamed] at hitem
      obtain ⟨hcenter, -⟩ := Bool.and_eq_true_iff.mp (List.mem_filter.mp hitem).2
      exact ⟨beq_iff_eq.mp hcenter, Letters.norm_norm.symm⟩
    | findTransfer id => cases a <;> exact h
    | deliver id => cases a <;> exact h
    | _ => exact h

/-! ### What is there -/

theorem column_of_takeOut {stock stock' : Stock} {centerId : String} {origin : Origin}
    {lines : List (InventoryItem × Weighed)} (h : stock.takeOut centerId origin lines = some stock')
    {line : InventoryItem × Weighed} (hline : line ∈ lines) :
    ∃ y q, decimalOf line.2.2 = some y ∧ kgColumn y = some q := by
  obtain ⟨mid, -, hlogs⟩ := Option.bind_eq_some_iff.mp h
  clear h
  induction lines generalizing mid with
  | nil => cases hline
  | cons head lines ih =>
    rw [List.foldlM_cons] at hlogs
    obtain ⟨next, hnext, hlogs⟩ := Option.bind_eq_some_iff.mp hlogs
    rcases List.mem_cons.mp hline with rfl | hline
    · obtain ⟨y, q, hy, hq, -⟩ := log_some hnext
      exact ⟨y, q, hy, hq⟩
    · exact ih hline next hlogs

theorem fitting_lines (hfits : Fits t s) {centerId : String}
    {lines : List (InventoryItem × Weighed)}
    (hsorted : Sorted t (lines.map Prod.snd)) (hready : ∀ line ∈ lines, Ready s centerId line)
    (hwhole : ∀ line ∈ lines, Whole line.2.2) : Fitting t centerId lines := by
  refine ⟨fun line hline => hfits _ (hready line hline).1, ?_, hwhole⟩
  have hnames : (lines.map fun line => t.norm line.2.1) = (lines.map Prod.snd).map Prod.fst := by
    rw [List.map_map]
    exact List.map_congr_left fun line hline =>
      hsorted.normal line.2 (List.mem_map.mpr ⟨line, hline, rfl⟩)
  rw [hnames]
  exact hsorted.apart

/-- The writing call finds its rows good for it, and its weight is of whole grams. -/
def Firm (w : World) : Op → Prop
  | .recordMovement centerId _ quantityKg materialType existingItem => Whole quantityKg.val ∧
      ∀ item, existingItem = some item → w.stock.find centerId materialType = some item
  | .sell _ normMaterial item dto => Covered w.stock [(item, normMaterial, dto.weightKg.val)]
  | .dispatch _ _ lines => (∀ line ∈ lines, Whole line.2.2) ∧ Covered w.stock lines
  | .accept _ _ _ lines _ => (∀ line ∈ lines, Whole line.2.2) ∧ Covered w.stock lines
  | _ => True

def Firmly (c : Race) : RaceEvent → Prop
  | .advance j o => ∀ i, pending c j = some i → o.delivery.applied = true → Firm c.world i
  | _ => True

theorem sound_takeOut_of_ready {centerId : String} {origin : Origin} {stock : Stock}
    {lines : List (InventoryItem × Weighed)} (h : Sound t w.stock) (hfits : Fits t s)
    (hsorted : Sorted t (lines.map Prod.snd)) (hready : ∀ line ∈ lines, Ready s centerId line)
    (hfirm : (∀ line ∈ lines, Whole line.2.2) ∧ Covered w.stock lines)
    (hstock : w.stock.takeOut centerId origin lines = some stock) : Sound t stock :=
  sound_takeOut h (fitting_lines hfits hsorted hready hfirm.1) hfirm.2 hstock

theorem sound_effect (h : Sound t w.stock) (hfits : Fits t s) (hallowed : Allowed t s i)
    (hfirm : Firm w i) (hv : w.effect t o i = some v) : Sound t v.stock := by
  cases i with
  | recordMovement centerId type quantityKg materialType existingItem =>
    obtain ⟨stock, hstock, hv⟩ := Option.bind_eq_some_iff.mp hv
    cases hv
    refine sound_recordMovement h hfirm.1 hfirm.2 (fun hout => ?_) hstock
    have hshort := hallowed.2.2 hout
    cases existingItem with
    | none => cases hshort
    | some item => exact ⟨item, rfl, by simpa [short] using hshort⟩
  | sell centerId normMaterial item dto =>
    obtain ⟨stock, hstock, hv⟩ := Option.bind_eq_some_iff.mp hv
    obtain ⟨consolidated, -, hv⟩ := Option.bind_eq_some_iff.mp hv
    obtain ⟨hname, hready, -⟩ := hallowed
    split at hv
    · cases hv
      obtain ⟨y, q, hy, hq⟩ := column_of_takeOut hstock (List.mem_singleton_self _)
      have hsorted : Sorted t ([(item, normMaterial, dto.weightKg.val)].map Prod.snd) :=
        ⟨List.nodup_singleton _, fun entry hentry => List.mem_singleton.mp hentry ▸ hname⟩
      refine sound_takeOut_of_ready h hfits hsorted
        (fun line hline => ?_) ⟨fun line hline => ?_, hfirm⟩ hstock
      · rw [List.mem_singleton.mp hline]
        exact hready
      · rw [List.mem_singleton.mp hline]
        exact whole_of_column dto.twoDecimals hy hq
    · cases hv
  | dispatch centerId buyerId lines =>
    change (if _ then none else _) = _ at hv
    split at hv
    · cases hv
    · obtain ⟨stock, hstock, hv⟩ := Option.bind_eq_some_iff.mp hv
      cases hv
      exact sound_takeOut_of_ready h hfits hallowed.1 hallowed.2 hfirm hstock
  | accept tx id centerId lines notes =>
    change (if _ then _ else none) = _ at hv
    split at hv
    · obtain ⟨stock, hstock, hv⟩ := Option.bind_eq_some_iff.mp hv
      cases hv
      exact sound_takeOut_of_ready h hfits hallowed.1 (fun line hline =>
        (hallowed.2.1 line hline).1)
        hfirm hstock
    · cases hv
  | credit batch =>
    obtain ⟨stock, hstock, hv⟩ := Option.bind_eq_some_iff.mp hv
    cases hv
    refine sound_credit h (fun entry hentry y q hy hq => ?_) hstock
    obtain ⟨e, he, rfl⟩ := List.mem_map.mp hentry
    exact whole_of_column (batch.twoDecimals e he) hy hq
  | _ =>
    cases hv
    exact h

/-! ### Every run -/

/-- The stock is sound, and the calls know of each row what it is of. -/
structure Kept (t : Letters) (w : World) (st : ℕ → Option Stage) : Prop where
  sound : Sound t w.stock
  fits : ∀ j s, st j = some s → Fits t s

theorem fits_update (h : ∀ j s, st j = some s → Fits t s) {s' : Option Stage}
    (hs' : ∀ s, s' = some s → Fits t s) :
    ∀ k s, Function.update st j s' k = some s → Fits t s := by
  intro k s hk
  by_cases hkj : k = j
  · subst hkj
    rw [Function.update_self] at hk
    exact hs' s hk
  · rw [Function.update_of_ne hkj] at hk
    exact h k s hk

theorem fits_first : Fits t .first := fun _ hrow => absurd hrow List.not_mem_nil

theorem call_kept (h : Kept t w st) (hj : st j = some s) (hallowed : Allowed t s i)
    (hfirm : o.delivery.applied = true → Firm w i) :
    Kept t (w.after t i o) (Function.update st j (some (next t s i (w.reply t i o)))) := by
  refine ⟨?_, fits_update h.fits fun s' hs' => ?_⟩
  · rcases after_cases t w i o with hsame | ⟨happlied, v, hv, hsame⟩
    · rw [hsame.stock]
      exact h.sound
    · rw [hsame.stock]
      exact sound_effect h.sound (h.fits j s hj) hallowed (hfirm happlied) hv
  · cases hs'
    exact fits_next (h.fits j s hj)

theorem stock_outside {d : Outside} (h : outside w d = some w') : w'.stock = w.stock := by
  cases d with
  | request row =>
    change (if _ then _ else none) = _ at h
    split at h
    · cases h
      rfl
    · cases h
  | amend users consolidated =>
    cases h
    rfl
  | abort tx =>
    cases h
    rfl

theorem run_kept {es : List RaceEvent} {c : Race} (hsound : Sound t w.stock)
    (hfirm : Along (system t).step Firmly (quiescent w) es)
    (hrun : run (system t).step (quiescent w) es = some c) : Kept t c.world (stages c) := by
  refine run_stages (S := system t) (C := Firmly) (I := Kept t) (fun caller =>
    follows_program t caller)
    ?_ ?_ ?_ ?_ ?_ ?_ hfirm hrun
  · intro w st j h _
    refine ⟨h.sound, fits_update h.fits fun s hs => ?_⟩
    cases hs
    exact fits_first
  · exact fun c j o s i h hj hi hallowed hC => call_kept h hj hallowed (hC i hi)
  · exact fun c j h _ => ⟨h.sound, fits_update h.fits fun s hs => by cases hs⟩
  · intro c d w h _ hw
    exact ⟨stock_outside hw ▸ h.sound, h.fits⟩
  · exact fun j t ht => by cases ht
  · exact ⟨hsound, fun j s hj => by cases hj⟩

/-- Whatever the order of the calls, a centre has what came in less what went out, and none of it is
below zero, where every write finds its rows good for it. -/
theorem stock_is_what_moved {es : List RaceEvent} {c : Race} (hsound : Sound t w.stock)
    (hfirm : Along (system t).step Firmly (quiescent w) es)
    (hrun : run (system t).step (quiescent w) es = some c) :
    (∀ centerId material, c.world.stock.held t centerId material =
      c.world.stock.total t centerId material .in_ - c.world.stock.total t centerId material .out) ∧
    ∀ item ∈ c.world.stock.items, 0 ≤ item.quantityKg := by
  obtain ⟨hkept, -⟩ := run_kept hsound hfirm hrun
  exact ⟨fun centerId material => sub_eq_zero.mp (hkept.balanced centerId material), hkept.nonneg⟩

/-! ### Runs of one material -/

theorem eight_lt : 8 < 2 ^ 53 := by norm_num

def eight : Double := .ofNat 8 eight_lt

theorem eight_positive : 0 < eight.val := by decide +kernel

theorem eight_text : ∃ n : ℕ, eight.toDecimal.value = n / 100 := ⟨800, by decide +kernel⟩

theorem eight_least : 1 / 2 ≤ eight.val := by decide +kernel

def normalLetters : Letters := ⟨id, id, fun _ => rfl, fun _ => rfl, fun _ => rfl⟩

def tenKilograms : World where
  users := [⟨"company", "company@example", .empresaB2b, none⟩]
  stock := ⟨[⟨"center", "PET", 10⟩], [⟨"center", .in_, 10, "PET", .byHand⟩]⟩
  transfers := []
  sales := []
  certificates := []
  consolidated := []
  transactions := fun _ => false
  nextTx := 0
  rowLock := fun _ => none

theorem tenKilograms_sound : Sound normalLetters tenKilograms.stock := by
  have hitem (item : InventoryItem) (h : item ∈ tenKilograms.stock.items) :
      item = ⟨"center", "PET", 10⟩ := List.mem_singleton.mp h
  refine ⟨⟨List.nodup_singleton _, fun item h => ?_⟩, fun c m => ?_, fun item h => ?_⟩
  · rw [hitem item h]
    exact ⟨⟨10000, by norm_num⟩, by norm_num⟩
  · unfold gap
    rw [held_eq, total_eq, total_eq]
    simp [tenKilograms, InventoryItem.of, InventoryMovement.of]
  · rw [hitem item h]
    norm_num

def answered (j calls : ℕ) : List RaceEvent :=
  List.replicate calls (.advance j ⟨.done, 0, "id"⟩)

def movement (j : ℕ) (type : MovementType) : RaceEvent :=
  .start j (.createMovement "center" ⟨type, eight, "PET", eight_positive⟩)

def sale (j : ℕ) : RaceEvent :=
  .start j (.createSale "center" ⟨"PET", eight, eight, "company", none, eight_text, eight_least⟩)

def covered (stock : Stock) (lines : List (InventoryItem × Weighed)) : Bool :=
  lines.all fun line => (stock.find line.1.centerId line.1.materialType).all fun row =>
    !short (some row) line.2.2

/-- `Firmly` as a test, of runs whose only writes are sales. -/
def firmly (c : Race) : RaceEvent → Bool
  | .advance j o =>
    match pending c j with
    | some (.sell _ normMaterial item dto) => !o.delivery.applied ||
        covered c.world.stock [(item, normMaterial, dto.weightKg.val)]
    | some (.recordMovement _ _ _ _ _) => !o.delivery.applied
    | some (.dispatch _ _ _) => !o.delivery.applied
    | some (.accept _ _ _ _ _) => !o.delivery.applied
    | _ => true
  | _ => true

theorem covered_of_test {stock : Stock} {lines : List (InventoryItem × Weighed)}
    (h : covered stock lines = true) : Covered stock lines := by
  intro line hline row hrow
  have hall := List.all_eq_true.mp h line hline
  rw [hrow] at hall
  simpa [short] using hall

theorem firmly_of_test {c : Race} {e : RaceEvent} (h : firmly c e = true) : Firmly c e := by
  cases e with
  | advance j o =>
    intro i hi happlied
    simp only [firmly, hi, happlied, Bool.not_true, Bool.false_or] at h
    cases i with
    | sell centerId normMaterial item dto => exact covered_of_test h
    | recordMovement _ _ _ _ _ => cases h
    | dispatch _ _ _ => cases h
    | accept _ _ _ _ _ => cases h
    | _ => trivial
  | _ => trivial

theorem stock_is_what_moved_sold : ∃ c,
    run (system normalLetters).step (quiescent tenKilograms) (sale 0 :: answered 0 5) = some c ∧
      (c.world.stock.held normalLetters "center" "PET" =
        c.world.stock.total normalLetters "center" "PET" .in_ -
          c.world.stock.total normalLetters "center" "PET" .out) ∧
      ∀ item ∈ c.world.stock.items, 0 ≤ item.quantityKg := by
  obtain ⟨c, hc⟩ := Option.isSome_iff_exists.mp (show (run (system normalLetters).step
    (quiescent tenKilograms) (sale 0 :: answered 0 5)).isSome = true by decide +kernel)
  have hfirm : Along (system normalLetters).step Firmly (quiescent tenKilograms)
      (sale 0 :: answered 0 5) := along_mono (fun _ _ h => firmly_of_test h) (by decide +kernel)
  obtain ⟨hheld, hnonneg⟩ := stock_is_what_moved tenKilograms_sound hfirm hc
  exact ⟨c, hc, hheld "center" "PET", hnonneg⟩

def books (c : Race) : ℚ × ℚ × ℚ :=
  (c.world.stock.held normalLetters "center" "PET",
    c.world.stock.total normalLetters "center" "PET" .in_,
    c.world.stock.total normalLetters "center" "PET" .out)

/-- Two deliveries by hand are written by one row that both have read, and two sales both find ten
kilograms for their eight. -/
theorem written_by_stale_rows :
    Sound normalLetters tenKilograms.stock ∧
    (∃ c, run (system normalLetters).step (quiescent tenKilograms)
      (movement 0 .in_ :: movement 1 .in_ :: answered 0 1 ++ answered 1 2 ++ answered 0 1) =
        some c ∧
        books c = (18, 26, 0)) ∧
    ∃ c, run (system normalLetters).step (quiescent tenKilograms)
      (sale 0 :: sale 1 :: answered 0 4 ++ answered 1 5 ++ answered 0 1) = some c ∧
        books c = (-6, 10, 16) := by
  refine ⟨tenKilograms_sound, ?_, ?_⟩
  · have hrun : (run (system normalLetters).step (quiescent tenKilograms)
        (movement 0 .in_ :: movement 1 .in_ :: answered 0 1 ++ answered 1 2 ++ answered 0 1)).map
          books = some (18, 26, 0) := by decide +kernel
    exact Option.map_eq_some_iff.mp hrun
  · have hrun : (run (system normalLetters).step (quiescent tenKilograms)
        (sale 0 :: sale 1 :: answered 0 4 ++ answered 1 5 ++ answered 0 1)).map books =
          some (-6, 10, 16) := by decide +kernel
    exact Option.map_eq_some_iff.mp hrun

end Livora.StockRaces
