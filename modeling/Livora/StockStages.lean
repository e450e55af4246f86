import Livora.StockServices

/-! What one call about the stock may do at each stage of it: material goes out of rows that were
read, had enough of it and are named as it is; a sale and an acceptance have checked the balance of
masses; and a transfer that was delivered is owed its certificate. -/

namespace Livora.StockStages

open DoubleRounding EffectPrograms EffectPrograms.Action StockBooks StockServices
open CenterBooks
  (Op Reply Work call B2bTransfer Sale Certificate EsgImpact CreateSaleDto BatchCredit
  MovementSum TransferStatus)
open StoreBooks (Failure)

inductive Caller where
  | createMovement (centerId : String) (dto : CreateMovementDto)
  | createSale (centerId : String) (dto : CreateSaleDto)
  | createTransfer (centerId : String) (dto : CreateB2bTransferDto)
  | acceptTransfer (id centerId : String) (dto : AcceptB2bTransferDto)
  | receiveTransfer (id buyerId : String)
  | creditBatch (batch : BatchCredit)

inductive Answer where
  | movement (movement : InventoryMovement)
  | sale (sale : Sale)
  | transfer (transfer : B2bTransfer)
  | received (transfer : B2bTransfer) (certificate : Certificate)
  | credited

def program (t : Letters) : Caller → Work Answer
  | .createMovement centerId dto => do
    let movement ← createMovement centerId dto
    pure (.movement movement)
  | .createSale centerId dto => do
    let sale ← createSale t centerId dto
    pure (.sale sale)
  | .createTransfer centerId dto => do
    let transfer ← createTransfer t centerId dto
    pure (.transfer transfer)
  | .acceptTransfer id centerId dto => do
    let transfer ← acceptTransfer t id centerId dto
    pure (.transfer transfer)
  | .receiveTransfer id buyerId => do
    let received ← receiveTransfer id buyerId
    pure (.received received.1 received.2)
  | .creditBatch batch => do
    call (.credit batch)
    pure .credited

structure Stage where
  /-- What was read for a movement by hand, with its centre and material. -/
  existing : Option ((String × String) × Option InventoryItem)
  /-- The rows read to take material out, with the centre and the name they were read for. -/
  rows : List (String × String × InventoryItem)
  /-- The sums read last, by centre, material and direction. -/
  sums : String × String × MovementType → ℚ
  transfer : Option (String × B2bTransfer)
  /-- The transfer that was delivered and has no certificate. -/
  owing : Option String

def Stage.first : Stage := ⟨none, [], fun _ => 0, none, none⟩

def Ready (s : Stage) (centerId : String) (line : InventoryItem × Weighed) : Prop :=
  (centerId, line.2.1, line.1) ∈ s.rows ∧ short (some line.1) line.2.2 = false

/-- The weights are of different materials, by their normal names. -/
structure Sorted (t : Letters) (weights : List Weighed) : Prop where
  apart : (weights.map Prod.fst).Nodup
  normal : ∀ entry ∈ weights, t.norm entry.1 = entry.1

/-- The sums that were read leave room for the weight. -/
def Room (s : Stage) (centerId : String) (entry : Weighed) : Prop :=
  exceeds (fl (s.sums (centerId, entry.1, .in_))) (fl (s.sums (centerId, entry.1, .out))) entry.2 =
    false

def Allowed (t : Letters) (s : Stage) : Op → Prop
  | .recordMovement centerId type quantityKg materialType existingItem =>
    s.existing = some ((centerId, materialType), existingItem) ∧ 0 < quantityKg.val ∧
      (type = .out → short existingItem quantityKg.val = false)
  | .sell centerId normMaterial item dto => t.norm normMaterial = normMaterial ∧
      Ready s centerId (item, normMaterial, dto.weightKg.val) ∧
      Room s centerId (normMaterial, dto.weightKg.val)
  | .dispatch centerId _ lines =>
    Sorted t (lines.map Prod.snd) ∧ ∀ line ∈ lines, Ready s centerId line
  | .accept _ id centerId lines _ => Sorted t (lines.map Prod.snd) ∧
      (∀ line ∈ lines, Ready s centerId line ∧
        (0 < fl (s.sums (centerId, line.2.1, .in_)) → Room s centerId line.2)) ∧
      ∃ transfer, s.transfer = some (id, transfer) ∧ transfer.centerId = centerId ∧
        transfer.status = .requested
  | .findTransfer id => ∀ owed, s.owing = some owed → id = owed
  | .deliver id => s.owing = none ∧ ∃ transfer, s.transfer = some (id, transfer) ∧
      transfer.status = .accepted
  | .createCertificate transferId _ _ _ => s.owing = some transferId
  | _ => True

def readSums (sums : String × String × MovementType → ℚ) (centerId : String)
    (read : List MovementSum) :
    String × String × MovementType → ℚ :=
  read.foldl (fun sums sum => Function.update sums (centerId, sum.1, sum.2.1) sum.2.2) sums

def next (t : Letters) (s : Stage) (i : Op) (r : Except Failure (Reply i)) : Stage :=
  match i, r with
  | .findItem centerId materialType, .ok item =>
    { s with existing := some ((centerId, materialType), item) }
  | .findInsensitive centerId name, .ok (some item) =>
    { s with rows := s.rows ++ [(centerId, name, item)] }
  | .lockItems _ centerId _, .ok items =>
    { s with rows := s.rows ++ items.map fun item => (centerId, t.norm item.materialType, item) }
  | .sumMovements centerId name type, .ok sum =>
    { s with sums := Function.update s.sums (centerId, name, type) sum }
  | .sumByMaterial _ centerId _, .ok read => { s with sums := readSums s.sums centerId read }
  | .findTransfer id, .ok (some transfer) => { s with transfer := some (id, transfer) }
  | .findTransfer _, _ => { s with owing := none }
  | .deliver id, .ok true => { s with owing := some id }
  | .uploadJson _, .error _ => { s with owing := none }
  | .createCertificate _ _ _ _, _ => { s with owing := none }
  | _, _ => s

def protocol (t : Letters) : Protocol Stage Op fun i => Except Failure (Reply i) where
  Allowed := Allowed t
  next := next t

/-! ### The programs -/

/-- The action makes only allowed calls, and leaves no certificate to be made. -/
def Clears (t : Letters) {α : Type} (s : Stage) (a : Work α) : Prop :=
  Obeys (protocol t) (fun u _ => u.owing = none) s a

structure Onward (s u : Stage) : Prop where
  owing : u.owing = s.owing
  transfer : u.transfer = s.transfer
  rows : s.rows ⊆ u.rows

theorem Onward.refl (s : Stage) : Onward s s := ⟨rfl, rfl, List.Subset.refl _⟩

theorem Onward.trans {s u v : Stage} (h : Onward s u) (h' : Onward u v) : Onward s v :=
  ⟨h'.owing.trans h.owing, h'.transfer.trans h.transfer, List.Subset.trans h.rows h'.rows⟩

section Programs

variable {t : Letters} {s : Stage} {centerId id : String} {α β : Type}

theorem clears_call {i : Op} {f : Reply i → Work α} (hallowed : Allowed t s i)
    (hf : ∀ x, Clears t (next t s i (.ok x)) (f x))
    (herror : ∀ e, (next t s i (.error e)).owing = none) : Clears t s (call i >>= f) :=
  obeys_call.mpr ⟨hallowed, hf, herror⟩

theorem clears_after {a : Work β} {f : β → Work α} {Q : Stage → β → Prop}
    (ha : Obeys (protocol t) (fun u x => u.owing = none ∧ ∀ y, x = .ok y → Q u y) s a)
    (hf : ∀ x u, u.owing = none → Q u x → Clears t u (f x)) : Clears t s (a >>= f) :=
  obeys_bind.mpr (ha.mono (fun u x hx => hf x u hx.1 (hx.2 x rfl)) fun _ _ hx => hx.1)

theorem clears_last {a : Work β} {f : β → α} (ha : Clears t s a) :
    Clears t s (a >>= fun x => pure (f x)) :=
  obeys_bind.mpr (ha.mono (fun _ _ hx => hx) fun _ _ hx => hx)

theorem clears_perform {i : Op} (hallowed : Allowed t s i)
    (hnext : ∀ r, (next t s i r).owing = none) : Clears t s (call i) :=
  obeys_perform.mpr ⟨hallowed, fun x => hnext (.ok x), fun e => hnext (.error e)⟩

theorem clears_createMovement (hs : s.owing = none) (dto : CreateMovementDto) :
    Clears t s (createMovement centerId dto) := by
  refine clears_call trivial (fun existing => ?_) fun e => hs
  split
  · exact hs
  · rename_i hcheck
    refine clears_perform ⟨rfl, dto.positive, fun hout => ?_⟩ fun r => hs
    simpa [hout] using hcheck

/-! #### Sales -/

theorem clears_sellFree (hs : s.owing = none) {normMaterial : String} {dto : CreateSaleDto}
    (hname : t.norm normMaterial = normMaterial)
    (hroom : Room s centerId (normMaterial, dto.weightKg.val)) :
    Clears t s (sellFree centerId normMaterial dto) := by
  refine clears_call trivial (fun found => ?_) fun e => hs
  cases found with
  | none => exact hs
  | some item =>
    simp only
    split
    · exact hs
    · rename_i hshort
      refine clears_perform ⟨hname, ⟨?_, by simpa using hshort⟩, hroom⟩ fun r => hs
      exact List.mem_append_right _ (List.mem_singleton_self _)

theorem clears_sellBalanced (hs : s.owing = none) {normMaterial : String} {dto : CreateSaleDto}
    (hname : t.norm normMaterial = normMaterial) :
    Clears t s (sellBalanced centerId normMaterial dto) := by
  refine clears_call trivial (fun totalIn => clears_call trivial (fun totalOut => ?_) fun e => hs)
    fun e => hs
  split
  · exact hs
  · rename_i hexceeds
    refine clears_sellFree ?_ hname ?_
    · exact hs
    unfold Room
    simpa [next, Function.update_of_ne] using hexceeds

theorem clears_createSale (hs : s.owing = none) (dto : CreateSaleDto) :
    Clears t s (createSale t centerId dto) := by
  refine clears_call trivial (fun buyer => ?_) fun e => hs
  split
  · exact clears_sellBalanced hs Letters.norm_norm
  · exact hs

/-! #### Weights -/

theorem sorted_addWeight {map : List Weighed} (h : Sorted t map) {norm : String}
    (hnorm : t.norm norm = norm) (weightKg : ℚ) : Sorted t (addWeight map norm weightKg) ∧
      ∀ entry ∈ addWeight map norm weightKg, entry.1 = norm ∨ ∃ e ∈ map, e.1 = entry.1 := by
  induction map with
  | nil =>
    refine ⟨⟨List.nodup_singleton _, fun entry hentry => ?_⟩, fun entry hentry => .inl ?_⟩
    · rw [List.mem_singleton.mp hentry]
      exact hnorm
    · rw [List.mem_singleton.mp hentry]
  | cons head map ih =>
    obtain ⟨hhead, hrest⟩ := List.nodup_cons.mp (List.map_cons ▸ h.apart)
    obtain ⟨hsorted, hnames⟩ := ih ⟨hrest, fun e he => h.normal e (List.mem_cons_of_mem _ he)⟩
    unfold addWeight
    split
    · rename_i hsame
      refine ⟨⟨List.map_cons ▸ List.nodup_cons.mpr ⟨hhead, hrest⟩, fun entry hentry => ?_⟩,
        fun entry hentry => ?_⟩
      · rcases List.mem_cons.mp hentry with rfl | hentry
        · exact h.normal head List.mem_cons_self
        · exact h.normal entry (List.mem_cons_of_mem _ hentry)
      · rcases List.mem_cons.mp hentry with rfl | hentry
        · exact .inl hsame
        · exact .inr ⟨entry, List.mem_cons_of_mem _ hentry, rfl⟩
    · rename_i hother
      refine ⟨⟨?_, fun entry hentry => ?_⟩, fun entry hentry => ?_⟩
      · rw [List.map_cons]
        refine List.nodup_cons.mpr ⟨fun hmem => ?_, hsorted.apart⟩
        obtain ⟨entry, hentry, hname⟩ := List.mem_map.mp hmem
        rcases hnames entry hentry with hnorm' | ⟨e, he, hename⟩
        · exact hother (hname.symm.trans hnorm')
        · exact hhead (List.mem_map.mpr ⟨e, he, hename.trans hname⟩)
      · rcases List.mem_cons.mp hentry with rfl | hentry
        · exact h.normal head List.mem_cons_self
        · exact hsorted.normal entry hentry
      · rcases List.mem_cons.mp hentry with rfl | hentry
        · exact .inr ⟨head, List.mem_cons_self, rfl⟩
        · rcases hnames entry hentry with hnorm' | ⟨e, he, hename⟩
          · exact .inl hnorm'
          · exact .inr ⟨e, List.mem_cons_of_mem _ he, hename⟩

theorem sorted_weigh (t : Letters) (lines : List MaterialLineDto) : Sorted t (weigh t lines) := by
  have hfold (map : List Weighed) (h : Sorted t map) : Sorted t
      (lines.foldl (fun map line =>
        addWeight map (t.norm line.material) line.weightKg.val) map) := by
    induction lines generalizing map with
    | nil => exact h
    | cons line lines ih => exact ih _ (sorted_addWeight h Letters.norm_norm _).1
  exact hfold [] ⟨List.nodup_nil, fun entry hentry => by cases hentry⟩

/-! #### Dispatches -/

theorem obeys_findRows (requested : List Weighed) (hs : s.owing = none) :
    Obeys (protocol t) (fun u x => u.owing = none ∧ ∀ lines, x = .ok lines → Onward s u ∧
      lines.map Prod.snd = requested ∧ ∀ line ∈ lines, Ready u centerId line) s
        (findRows centerId requested) := by
  induction requested generalizing s with
  | nil =>
    refine ⟨hs, fun lines hlines => ?_⟩
    cases hlines
    exact ⟨.refl s, rfl, fun line hline => by cases hline⟩
  | cons entry requested ih =>
    obtain ⟨normMaterial, weightKg⟩ := entry
    refine obeys_call.mpr ⟨trivial, fun found => ?_, fun e => ⟨hs, fun lines h => by cases h⟩⟩
    cases found with
    | none => exact ⟨hs, fun lines h => by cases h⟩
    | some item =>
      simp only
      split
      · exact ⟨hs, fun lines h => by cases h⟩
      · rename_i hshort
        refine obeys_bind.mpr
          ((ih (s := { s with rows := s.rows ++ [(centerId, normMaterial, item)] })
          hs).mono ?_ fun u e hx => ⟨hx.1, fun lines h => by cases h⟩)
        rintro u lines ⟨howing, hlines⟩
        obtain ⟨honward, hmap, hready⟩ := hlines lines rfl
        refine ⟨howing, fun lines' h => ?_⟩
        cases h
        refine ⟨⟨honward.owing, honward.transfer, fun row hrow => honward.rows
          (List.mem_append_left _ hrow)⟩, by rw [List.map_cons, hmap], fun line hline => ?_⟩
        rcases List.mem_cons.mp hline with rfl | hline
        · exact ⟨honward.rows (List.mem_append_right _ (List.mem_singleton_self _)),
            by simpa using hshort⟩
        · exact hready line hline

theorem clears_createTransfer (hs : s.owing = none) (dto : CreateB2bTransferDto) :
    Clears t s (createTransfer t centerId dto) := by
  refine clears_call trivial (fun buyer => ?_) fun e => hs
  split
  · refine clears_after (obeys_findRows _ hs) fun lines u hu ⟨_, hmap, hready⟩ => ?_
    refine clears_perform ⟨?_, hready⟩ fun r => hu
    rw [hmap]
    exact sorted_weigh t dto.materials
  · exact hs

/-! #### Acceptances -/

structure Taken (centerId : String) (names : List String) (u : Stage) (inventory : Inventory) :
    Prop where
  rows : ∀ entry ∈ inventory.inventoryMap, (centerId, entry) ∈ u.rows
  sums : ∀ name ∈ names, ∀ type, inventory.total name type = fl (u.sums (centerId, name, type))

theorem readSums_eq (sums : String × String × MovementType → ℚ) (read : List MovementSum)
    (name : String) (type : MovementType) : readSums sums centerId read (centerId, name, type) =
      (((read.filter fun sum => sum.1 == name && sum.2.1 == type).getLast?).map
        fun sum => sum.2.2).getD (sums (centerId, name, type)) := by
  unfold readSums
  induction read generalizing sums with
  | nil => rfl
  | cons sum read ih =>
    rw [List.foldl_cons, ih, List.filter_cons]
    by_cases hsum : sum.1 = name ∧ sum.2.1 = type
    · obtain ⟨rfl, rfl⟩ := hsum
      simp only [beq_self_eq_true, Bool.and_self, if_true, Function.update_self, List.getLast?_cons]
      cases (read.filter fun other => other.1 == sum.1 && other.2.1 == sum.2.1).getLast? <;> rfl
    · have hne : (centerId, name, type) ≠ (centerId, sum.1, sum.2.1) := by
        intro he
        obtain ⟨-, he⟩ := Prod.mk.inj he
        obtain ⟨hname, htype⟩ := Prod.mk.inj he
        exact hsum ⟨hname.symm, htype.symm⟩
      rw [Function.update_of_ne hne, if_neg (by simpa using hsum)]

theorem readSums_congr {sums sums' : String × String × MovementType → ℚ} {name : String}
    {type : MovementType} (h : sums (centerId, name, type) = sums' (centerId, name, type))
    (read : List MovementSum) : readSums sums centerId read (centerId, name, type) =
      readSums sums' centerId read (centerId, name, type) := by
  rw [readSums_eq, readSums_eq, h]

theorem readSums_of_absent (sums : String × String × MovementType → ℚ) {read : List MovementSum}
    {name : String} (h : ∀ sum ∈ read, sum.1 ≠ name) (type : MovementType) :
    readSums sums centerId read (centerId, name, type) = sums (centerId, name, type) := by
  rw [readSums_eq, List.filter_eq_nil_iff.mpr fun sum hsum => by simp [h sum hsum]]
  rfl

theorem inventory_total_eq (inventory : Inventory) (centerId name : String) (type : MovementType) :
    inventory.total name type = fl (readSums (fun _ => 0) centerId inventory.movementSums
      (centerId, name, type)) := by
  rw [readSums_eq]
  unfold Inventory.total
  cases (inventory.movementSums.filter fun sum => sum.1 == name && sum.2.1 == type).getLast? with
  | none => simp
  | some sum => rfl

theorem obeys_lockItems (hs : s.owing = none) (tx : ℕ) (names : List String) :
    Obeys (protocol t) (fun u x => u.owing = none ∧ ∀ items, x = .ok items → Onward s u ∧
      u.sums = s.sums ∧ ∀ rows, items = some rows → ∀ item ∈ rows,
        (centerId, t.norm item.materialType, item) ∈ u.rows) s (lockItems tx centerId names) := by
  unfold lockItems
  rw [obeys_recover]
  refine obeys_call.mpr ⟨trivial, fun rows => ?_, fun e => ⟨hs, fun items h => ?_⟩⟩
  · refine ⟨hs, fun items h => ?_⟩
    cases h
    refine ⟨⟨rfl, rfl, List.subset_append_left _ _⟩, rfl, fun rows' h item hitem => ?_⟩
    cases h
    exact List.mem_append_right _ (List.mem_map.mpr ⟨item, hitem, rfl⟩)
  · cases h
    exact ⟨.refl s, rfl, fun rows h => by cases h⟩

theorem obeys_lockRows (hs : s.owing = none) (hsums : s.sums = fun _ => 0) (tx : ℕ)
    (names : List String) :
    Obeys (protocol t) (fun u x => u.owing = none ∧ ∀ inventory, x = .ok inventory →
      Onward s u ∧ Taken centerId names u inventory) s (lockRows t tx centerId names) := by
  refine obeys_bind.mpr ((obeys_lockItems hs tx names).mono (fun u items hx => ?_)
    fun u e hx => ⟨hx.1, fun inventory h => by cases h⟩)
  obtain ⟨howing, hitems⟩ := hx
  obtain ⟨honward, husums, hrows⟩ := hitems items rfl
  have hzero (name : String) (type : MovementType) :
      Inventory.empty.total name type = fl (u.sums (centerId, name, type)) := by
    rw [husums, hsums]
    exact inventory_total_eq .empty centerId name type
  cases items with
  | none =>
    refine ⟨howing, fun inventory h => ?_⟩
    cases h
    exact ⟨honward, ⟨fun _ hentry => absurd hentry List.not_mem_nil, fun name _ type =>
      hzero name type⟩⟩
  | some items =>
    have hmap : ∀ entry ∈ items.map fun item => (t.norm item.materialType, item),
        (centerId, entry) ∈ u.rows := by
      intro entry hentry
      obtain ⟨item, hitem, rfl⟩ := List.mem_map.mp hentry
      exact hrows items rfl item hitem
    refine obeys_bind.mpr
      (obeys_recover.mpr (obeys_perform.mpr ⟨trivial, fun read => ?_, fun e => ?_⟩))
    · refine ⟨howing, fun inventory h => ?_⟩
      cases h
      refine ⟨⟨honward.owing, honward.transfer, honward.rows⟩, ⟨hmap, fun name _ type => ?_⟩⟩
      change _ = fl (readSums u.sums centerId read (centerId, name, type))
      rw [inventory_total_eq, husums, hsums]
    · refine ⟨howing, fun inventory h => ?_⟩
      cases h
      exact ⟨honward, ⟨hmap, fun name _ type => hzero name type⟩⟩

theorem obeys_lookUp (hs : s.owing = none) {names : List String} (hnames : names.Nodup) :
    Obeys (protocol t) (fun u x => u.owing = none ∧ ∀ inventory, x = .ok inventory →
      Onward s u ∧ Taken centerId names u inventory ∧
        (∀ sum ∈ inventory.movementSums, sum.1 ∈ names) ∧
          ∀ name ∉ names, ∀ type, u.sums (centerId, name, type) = s.sums (centerId, name, type)) s
      (lookUp centerId names) := by
  induction names generalizing s with
  | nil =>
    refine ⟨hs, fun inventory h => ?_⟩
    cases h
    exact ⟨.refl s, ⟨fun _ hentry => absurd hentry List.not_mem_nil,
      fun _ hname => absurd hname List.not_mem_nil⟩, fun _ hsum => absurd hsum List.not_mem_nil,
      fun _ _ _ => rfl⟩
  | cons name names ih =>
    obtain ⟨hname, hnames⟩ := List.nodup_cons.mp hnames
    refine obeys_call.mpr ⟨trivial, fun found => ?_, fun e => ⟨hs, fun inventory h => by cases h⟩⟩
    have hfound : Onward s (next t s (.findInsensitive centerId name) (.ok found)) ∧
        (next t s (.findInsensitive centerId name) (.ok found)).sums = s.sums ∧
        ∀ item, found = some item → (centerId, name, item) ∈
          (next t s (.findInsensitive centerId name) (.ok found)).rows := by
      cases found with
      | none => exact ⟨.refl s, rfl, fun item h => by cases h⟩
      | some item =>
        refine ⟨⟨rfl, rfl, List.subset_append_left _ _⟩, rfl, fun item' h => ?_⟩
        cases h
        exact List.mem_append_right _ (List.mem_singleton_self _)
    obtain ⟨honward, hsums, hrow⟩ := hfound
    change Obeys (protocol t) _ (next t s (.findInsensitive centerId name) (.ok found)) _
    generalize next t s (.findInsensitive centerId name) (.ok found) = s1 at honward hsums hrow ⊢
    have hs1 : s1.owing = none := honward.owing.trans hs
    refine obeys_call.mpr ⟨trivial, fun totalIn => obeys_call.mpr ⟨trivial, fun totalOut => ?_,
      fun e => ⟨hs1, fun inventory h => by cases h⟩⟩, fun e => ⟨hs1, fun inventory h => by cases h⟩⟩
    have hsummed : (next t (next t s1 (.sumMovements centerId name .in_) (.ok totalIn))
      (.sumMovements centerId name .out) (.ok totalOut)).owing = none := hs1
    refine obeys_bind.mpr ((ih hsummed hnames).mono (fun u rest hx => ?_)
      fun u e hx => ⟨hx.1, fun inventory h => by cases h⟩)
    obtain ⟨howing, hrest⟩ := hx
    obtain ⟨honward', htaken, hwithin, hothers⟩ := hrest rest rfl
    refine ⟨howing, fun inventory h => ?_⟩
    cases h
    have hown (type : MovementType) : u.sums (centerId, name, type) =
        (match type with | .in_ => totalIn | .out => totalOut) := by
      rw [hothers name hname type]
      cases type with
      | in_ => simp [next]
      | out => simp [next]
    refine ⟨honward.trans ⟨honward'.owing, honward'.transfer, honward'.rows⟩, ⟨?_, ?_⟩, ?_, ?_⟩
    · intro entry hentry
      rcases List.mem_append.mp hentry with hentry | hentry
      · obtain ⟨item, hitem, rfl⟩ := List.mem_map.mp hentry
        exact honward'.rows (hrow item (Option.mem_toList.mp hitem))
      · exact htaken.rows entry hentry
    · intro name' hname' type
      rw [inventory_total_eq _ centerId]
      change fl
        (readSums (Function.update (Function.update (fun _ => 0) (centerId, name, .in_) totalIn)
        (centerId, name, .out) totalOut) centerId rest.movementSums (centerId, name', type)) = _
      rcases List.mem_cons.mp hname' with rfl | hname'
      · rw [readSums_of_absent _ (fun sum hsum he => hname (by rw [← he]; exact hwithin sum hsum)),
          hown]
        cases type with
        | in_ => simp
        | out => simp
      · have hne : name' ≠ name := fun he => hname (he ▸ hname')
        rw [← htaken.sums name' hname' type, inventory_total_eq _ centerId]
        refine congrArg fl (readSums_congr ?_ _)
        simp [hne]
    · intro sum hsum
      rcases List.mem_cons.mp hsum with rfl | hsum
      · exact List.mem_cons_self
      · rcases List.mem_cons.mp hsum with rfl | hsum
        · exact List.mem_cons_self
        · exact List.mem_cons_of_mem _ (hwithin sum hsum)
    · intro name' hname' type
      rw [List.mem_cons, not_or] at hname'
      rw [hothers name' hname'.2 type]
      simp [next, hname'.1, hsums]

theorem obeys_takeInventory (hs : s.owing = none) (hsums : s.sums = fun _ => 0) (tx : ℕ)
    {names : List String} (hnames : names.Nodup) :
    Obeys (protocol t) (fun u x => u.owing = none ∧ ∀ inventory, x = .ok inventory →
      Onward s u ∧ Taken centerId names u inventory) s (takeInventory t tx centerId names) := by
  refine obeys_bind.mpr ((obeys_lockRows hs hsums tx names).mono (fun u inventory hx => ?_)
    fun u e hx => ⟨hx.1, fun inventory h => by cases h⟩)
  obtain ⟨howing, hinventory⟩ := hx
  obtain ⟨honward, htaken⟩ := hinventory inventory rfl
  dsimp only
  split
  · refine (obeys_lookUp howing hnames).mono (fun v inventory hx => ⟨hx.1, fun inventory' h => ?_⟩)
      fun v e hx => ⟨hx.1, fun inventory h => by cases h⟩
    obtain ⟨honward', htaken', -, -⟩ := hx.2 inventory' h
    exact ⟨honward.trans honward', htaken'⟩
  · refine ⟨howing, fun inventory' h => ?_⟩
    cases h
    exact ⟨honward, htaken⟩

theorem mem_of_get {inventory : Inventory} {name : String} {item : InventoryItem}
    (h : inventory.get name = some item) : (name, item) ∈ inventory.inventoryMap := by
  obtain ⟨entry, hentry, rfl⟩ := Option.map_eq_some_iff.mp h
  obtain ⟨hmem, hname⟩ := List.mem_filter.mp (List.mem_of_getLast? hentry)
  rw [← beq_iff_eq.mp hname]
  exact hmem

theorem checkLine_ok {inventory : Inventory} {entry : Weighed} {line : InventoryItem × Weighed}
    (h : checkLine inventory entry = .ok line) : line.2 = entry ∧
      inventory.get entry.1 = some line.1 ∧ short (some line.1) entry.2 = false ∧
        (0 < inventory.total entry.1 .in_ →
          exceeds (inventory.total entry.1 .in_) (inventory.total entry.1 .out) entry.2 =
            false) := by
  unfold checkLine at h
  split at h
  · cases h
  · rename_i hroom
    split at h
    · rename_i item hitem
      split at h
      · cases h
      · rename_i hshort
        cases h
        refine ⟨rfl, hitem, by simpa using hshort, fun hin => ?_⟩
        simpa [hin] using hroom
    · cases h

theorem checkLines_ok {inventory : Inventory} {actual : List Weighed}
    {lines : List (InventoryItem × Weighed)} (h : checkLines inventory actual = .ok lines) :
    lines.map Prod.snd = actual ∧ ∀ line ∈ lines, checkLine inventory line.2 = .ok line := by
  unfold checkLines at h
  induction actual generalizing lines with
  | nil =>
    cases h
    exact ⟨rfl, fun _ hline => absurd hline List.not_mem_nil⟩
  | cons entry actual ih =>
    rw [List.mapM_cons] at h
    cases hline : checkLine inventory entry with
    | error e =>
      rw [hline] at h
      cases h
    | ok line =>
      cases hrest : actual.mapM (checkLine inventory) with
      | error e =>
        rw [hline, hrest] at h
        cases h
      | ok rest =>
        rw [hline, hrest] at h
        cases h
        obtain ⟨hmap, hlines⟩ := ih hrest
        have hentry := (checkLine_ok hline).1
        refine ⟨by rw [List.map_cons, hmap, hentry], fun l hl => ?_⟩
        rcases List.mem_cons.mp hl with rfl | hl
        · rw [hentry]
          exact hline
        · exact hlines l hl

theorem clears_acceptIn (hs : s.owing = none) (hsums : s.sums = fun _ => 0) (tx : ℕ)
    {transfer : B2bTransfer} (htransfer : s.transfer = some (id, transfer))
    (hcenter : transfer.centerId = centerId) (hstatus : transfer.status = .requested)
    {actual : List Weighed} (hsorted : Sorted t actual) (notes : Option String) :
    Clears t s (acceptIn t tx transfer id centerId actual notes) := by
  refine clears_after (obeys_takeInventory hs hsums tx hsorted.apart)
    fun inventory u hu ⟨honward, htaken⟩ => ?_
  split
  · exact hu
  · rename_i lines hlines
    obtain ⟨hmap, hchecked⟩ := checkLines_ok hlines
    refine clears_perform ⟨hmap ▸ hsorted, fun line hline => ?_, transfer,
      honward.transfer.trans htransfer, hcenter, hstatus⟩ fun r => hu
    obtain ⟨-, hget, hshort, hroom⟩ := checkLine_ok (hchecked line hline)
    have hname : line.2.1 ∈ actual.map Prod.fst := by
      rw [← hmap, List.map_map]
      exact List.mem_map.mpr ⟨line, hline, rfl⟩
    rw [htaken.sums _ hname, htaken.sums _ hname] at hroom
    exact ⟨⟨htaken.rows _ (mem_of_get hget), hshort⟩, hroom⟩

theorem clears_acceptFound (hs : s.owing = none) (hsums : s.sums = fun _ => 0)
    {transfer : B2bTransfer} (htransfer : s.transfer = some (id, transfer))
    (hcenter : transfer.centerId = centerId) (hstatus : transfer.status = .requested)
    (dto : AcceptB2bTransferDto) : Clears t s (acceptFound t transfer id centerId dto) := by
  refine clears_call trivial (fun tx => ?_) fun e => hs
  have hin := clears_acceptIn (s := next t s .begin (.ok tx)) hs hsums tx htransfer hcenter hstatus
    (sorted_weigh t dto.actualMaterials) dto.notes
  refine obeys_rescue.mpr (hin.mono (fun _ _ hu => hu) fun u e hu => ?_)
  exact clears_call trivial (fun _ => hu) fun e => hu

theorem clears_acceptTransfer (hs : s.owing = none) (hsums : s.sums = fun _ => 0)
    (dto : AcceptB2bTransferDto) : Clears t s (acceptTransfer t id centerId dto) := by
  refine clears_call (fun owed howed => by rw [hs] at howed; cases howed) (fun found => ?_)
    fun e => rfl
  cases found with
  | none => exact rfl
  | some transfer =>
    have hnext : (next t s (.findTransfer id) (.ok (some transfer))).owing = none := hs
    dsimp only
    split
    · exact hnext
    · split
      · exact hnext
      · split
        · exact hnext
        · refine clears_acceptFound hnext hsums rfl ?_ ?_ dto
          · exact not_ne_iff.mp ‹_›
          · exact not_ne_iff.mp ‹_›

/-! #### Deliveries -/

theorem clears_certify (hs : s.owing = some id) : Clears t s (certify id) := by
  refine clears_call (fun owed howed => Option.some.inj (hs.symm.trans howed)) (fun found => ?_)
    fun e => rfl
  cases found with
  | none => exact rfl
  | some transfer =>
    refine clears_call trivial (fun ipfsHash => ?_) fun e => rfl
    exact clears_call hs (fun certificate => rfl) fun e => rfl

theorem clears_receiveTransfer (hs : s.owing = none) (buyerId : String) :
    Clears t s (receiveTransfer id buyerId) := by
  refine clears_call (fun owed howed => by rw [hs] at howed; cases howed) (fun found => ?_)
    fun e => rfl
  cases found with
  | none => exact rfl
  | some transfer =>
    have hnext : (next t s (.findTransfer id) (.ok (some transfer))).owing = none := hs
    dsimp only
    split
    · exact hnext
    · split
      · exact hnext
      · refine clears_call ⟨hnext, transfer, rfl, not_ne_iff.mp ‹_›⟩ (fun updated => ?_)
          fun e => hnext
        cases updated with
        | false => exact hnext
        | true => exact clears_certify rfl

theorem clears_program (t : Letters) (caller : Caller) : Clears t .first (program t caller) := by
  cases caller with
  | createMovement centerId dto => exact clears_last (clears_createMovement rfl dto)
  | createSale centerId dto => exact clears_last (clears_createSale rfl dto)
  | createTransfer centerId dto => exact clears_last (clears_createTransfer rfl dto)
  | acceptTransfer id centerId dto => exact clears_last (clears_acceptTransfer rfl rfl dto)
  | receiveTransfer id buyerId => exact clears_last (clears_receiveTransfer rfl buyerId)
  | creditBatch batch => exact clears_call trivial (fun _ => rfl) fun e => rfl

theorem follows_program (t : Letters) (caller : Caller) :
    Follows (protocol t) .first (program t caller) :=
  (clears_program t caller).mono (fun _ _ _ => trivial) fun _ _ _ => trivial

end Programs

end Livora.StockStages
