import Livora.NumberRecords
import Livora.StockServices
import Livora.UnicodeText

/-! The codes that the names of materials are kept and looked up under. The centre's own tables go
by the name in upper case without blanks around it, the contract by the same without accents, and
a movement by hand by the name as it was typed. -/

namespace Livora.MaterialCodes

open DoubleRounding UnicodeText StockBooks CenterBooks StockServices
open BackOffice (User)

section Codes

variable (u : Tables)

/-- The two functions of strings of the services, by the tables. -/
def letters : Letters where
  toUpperCase s := String.ofList (u.toUpperCase s.toList)
  trim s := String.ofList (u.trim s.toList)
  upper_upper s := by rw [String.toList_ofList, Tables.toUpperCase_toUpperCase]
  trim_trim s := by rw [String.toList_ofList, Tables.trim_trim]
  upper_trim s := by rw [String.toList_ofList, String.toList_ofList, Tables.toUpperCase_trim]

/-- `material.normalize('NFD').replace(/[\u0300-\u036f]/g, '').toUpperCase().trim()` -/
def normalizeMaterialCode (material : String) : String := String.ofList (u.plain material.toList)

/-- `material.toUpperCase().trim()` -/
def normMaterial (material : String) : String := (letters u).norm material

/-- The row and the movement of a credited batch. -/
def creditCode (material : String) : String := normMaterial u material

/-- The row of a centre's price list. -/
def priceListCode (materialType : String) : String := normMaterial u materialType

/-- The rows and movements that a sale goes by. -/
def saleCode (materialType : String) : String := normMaterial u materialType

def transferCode (material : String) : String := normMaterial u material

/-- The key of `MATERIAL_RATES` in `calculateTotalTokens`. -/
def rateCode (key : String) : String := normMaterial u key

/-- The symbol of a weight vector. -/
def vectorCode (material : String) : String := normalizeMaterialCode u material

/-- The row and the movement of a movement by hand. -/
def movementCode (materialType : String) : String := materialType

end Codes

variable {u : Tables} {t : Letters} {s s' : Stock} {centerId name : String} {origin : Origin}

theorem normalizeMaterialCode_idem {material : String} (h : joiner ∉ material.toList) :
    normalizeMaterialCode u (normalizeMaterialCode u material) =
      normalizeMaterialCode u material := by
  rw [normalizeMaterialCode, normalizeMaterialCode, String.toList_ofList, Tables.plain_plain h]

/-! ### What a credit leaves behind -/

def Has (s : Stock) (centerId name : String) : Prop :=
  ∃ item ∈ s.items, item.centerId = centerId ∧ item.materialType = name

theorem has_of_find {item : InventoryItem} (h : s.find centerId name = some item) :
    Has s centerId name := by
  have hitem := List.find?_some h
  simp only [Bool.and_eq_true, beq_iff_eq] at hitem
  exact ⟨item, List.mem_of_find?_eq_some h, hitem⟩

theorem has_write {c n : String} {q : ℚ} (h : Has s centerId name) :
    Has (s.write c n q) centerId name := by
  obtain ⟨item, hitem, hc, hn⟩ := h
  refine ⟨_, List.mem_map_of_mem hitem, ?_⟩
  split
  · exact ⟨hc, hn⟩
  · exact ⟨hc, hn⟩

theorem has_bringIn {c n : String} {weight : ℚ} (h : s.bringIn c n weight = some s') :
    (∀ c' n', Has s c' n' → Has s' c' n') ∧ Has s' c n := by
  unfold Stock.bringIn at h
  cases hfind : s.find c n with
  | some item =>
    rw [hfind] at h
    simp only [Option.bind_eq_bind, Option.bind_eq_some_iff, Stock.increment, Option.some.injEq]
      at h
    obtain ⟨amount, -, row, hrow, q, -, rfl⟩ := h
    exact ⟨fun _ _ => has_write, has_write (has_of_find hfind)⟩
  | none =>
    rw [hfind] at h
    simp only [Stock.create, hfind, Option.isSome_none, Bool.false_eq_true, if_false,
      Option.bind_eq_bind, Option.bind_eq_some_iff, Option.some.injEq] at h
    obtain ⟨number, -, q, -, rfl⟩ := h
    refine ⟨?_, ⟨_, List.mem_append_right _ (List.mem_singleton_self _), rfl, rfl⟩⟩
    rintro c' n' ⟨item, hitem, hkey⟩
    exact ⟨item, List.mem_append_left _ hitem, hkey⟩

theorem has_creditOne {c : String} {entry : Weighed} (h : s.creditOne t c origin entry = some s') :
    (∀ c' n', Has s c' n' → Has s' c' n') ∧ Has s' c (t.norm entry.1) := by
  simp only [Stock.creditOne, Option.bind_eq_bind, Option.bind_eq_some_iff, Stock.log,
    Option.some.injEq] at h
  obtain ⟨brought, hbrought, d, -, q, -, rfl⟩ := h
  obtain ⟨hkeep, hthere⟩ := has_bringIn hbrought
  exact ⟨hkeep, hthere⟩

theorem has_credit {materials : List Weighed} (h : s.credit t centerId origin materials = some s')
    {entry : Weighed} (hentry : entry ∈ materials) (hweight : 0 < entry.2) :
    Has s' centerId (t.norm entry.1) := by
  have hloop : ∀ (l : List Weighed) (s : Stock),
      l.foldlM (fun s entry => s.creditOne t centerId origin entry) s = some s' →
        (Has s centerId (t.norm entry.1) → Has s' centerId (t.norm entry.1)) ∧
          (entry ∈ l → Has s' centerId (t.norm entry.1)) := by
    intro l
    induction l with
    | nil =>
      intro s hs
      cases hs
      exact ⟨id, fun hmem => absurd hmem List.not_mem_nil⟩
    | cons e l ih =>
      intro s hs
      obtain ⟨next, hnext, hrest⟩ := Option.bind_eq_some_iff.mp hs
      obtain ⟨hkeep, hthere⟩ := ih next hrest
      refine ⟨fun hold => hkeep ((has_creditOne hnext).1 _ _ hold), fun hmem => ?_⟩
      rcases List.mem_cons.mp hmem with rfl | hmem
      · exact hkeep (has_creditOne hnext).2
      · exact hthere hmem
  exact (hloop _ s h).2 (List.mem_filter.mpr ⟨hentry, decide_eq_true hweight⟩)

/-! ### Price lists -/

/-- The price as it is sent; what the column rounds is left out. -/
structure AcopioPriceList where
  centerId : String
  materialType : String
  pricePerKg : Double

namespace AcopioPriceList

def key (row : AcopioPriceList) : String × String := (row.centerId, row.materialType)

/-- `upsert`, by the unique `centerId_materialType` -/
def upsert (rows : List AcopioPriceList) (row : AcopioPriceList) : List AcopioPriceList :=
  if rows.any fun other => other.key = row.key then
    rows.map fun other =>
      if other.key = row.key then { other with pricePerKg := row.pricePerKg } else other
  else rows ++ [row]

theorem mem_keys_upsert {rows : List AcopioPriceList} {row : AcopioPriceList}
    {k : String × String} :
    k ∈ (upsert rows row).map key ↔ k ∈ rows.map key ∨ k = row.key := by
  unfold upsert
  split
  · rename_i hthere
    have hkeys : (rows.map fun other =>
      if other.key = row.key then { other with pricePerKg := row.pricePerKg }
        else other).map key = rows.map key := by
      rw [List.map_map]
      refine List.map_congr_left fun other _ => ?_
      change key (if other.key = row.key then _ else _) = _
      split <;> rfl
    rw [hkeys]
    have hmem : row.key ∈ rows.map key := by
      obtain ⟨other, hother, hkey⟩ := List.any_eq_true.mp hthere
      exact List.mem_map.mpr ⟨other, hother, of_decide_eq_true hkey⟩
    exact ⟨.inl, fun h => h.elim id fun he => he ▸ hmem⟩
  · rw [List.map_append, List.mem_append, List.map_singleton, List.mem_singleton]

end AcopioPriceList

def priceRow (t : Letters) (centerId : String) (item : String × Double) : AcopioPriceList :=
  ⟨centerId, t.norm item.1, item.2⟩

/-- The table after the call. -/
def updatePriceList (t : Letters) (center : Option User) (rows : List AcopioPriceList)
    (centerId : String) (prices : List (String × Double)) : Except String (List AcopioPriceList) :=
  if center.any fun user => user.role = .centroAcopio then
    .ok ((prices.map (priceRow t centerId)).foldl AcopioPriceList.upsert rows)
  else .error "Centro de acopio no encontrado"

/-- A list that is brought up to date has the rows that it had, and those of the names it was
given. -/
theorem keys_updatePriceList {center : Option User} {rows rows' : List AcopioPriceList}
    {prices : List (String × Double)}
    (h : updatePriceList t center rows centerId prices = .ok rows') (k : String × String) :
    k ∈ rows'.map AcopioPriceList.key ↔
      k ∈ rows.map AcopioPriceList.key ∨ ∃ item ∈ prices, k = (centerId, t.norm item.1) := by
  have hloop (l : List AcopioPriceList) (rows : List AcopioPriceList) :
      k ∈ (l.foldl AcopioPriceList.upsert rows).map AcopioPriceList.key ↔
        k ∈ rows.map AcopioPriceList.key ∨ ∃ row ∈ l, k = row.key := by
    induction l generalizing rows with
    | nil => simp
    | cons row l ih =>
      rw [List.foldl_cons, ih, AcopioPriceList.mem_keys_upsert, or_assoc, List.exists_mem_cons_iff]
  unfold updatePriceList at h
  split at h
  · cases h
    rw [hloop]
    simp only [List.mem_map, exists_exists_and_eq_and]
    rfl
  · cases h

/-! ### Weights by material -/

theorem mem_addWeight {map : List Weighed} {norm : String} {weightKg : ℚ} :
    name ∈ (addWeight map norm weightKg).map Prod.fst ↔ name ∈ map.map Prod.fst ∨ name = norm := by
  induction map with
  | nil => simp [addWeight]
  | cons entry map ih =>
    obtain ⟨other, weight⟩ := entry
    unfold addWeight
    split
    · rename_i hsame
      rw [List.map_cons, List.map_cons, List.mem_cons, hsame]
      exact ⟨.inl, fun h => h.elim id .inl⟩
    · rw [List.map_cons, List.map_cons, List.mem_cons, List.mem_cons, ih, or_assoc]

theorem mem_weigh {lines : List MaterialLineDto} :
    name ∈ (weigh t lines).map Prod.fst ↔ ∃ line ∈ lines, name = t.norm line.material := by
  have hloop (map : List Weighed) :
      name ∈ (lines.foldl (fun map line =>
        addWeight map (t.norm line.material) line.weightKg.val) map).map
        Prod.fst ↔ name ∈ map.map Prod.fst ∨ ∃ line ∈ lines, name = t.norm line.material := by
    induction lines generalizing map with
    | nil => simp
    | cons line lines ih =>
      rw [List.foldl_cons, ih, mem_addWeight, or_assoc, List.exists_mem_cons_iff]
  exact (hloop []).trans ⟨fun h => h.elim (fun hnil => by cases hnil) id, .inr⟩

/-! ### The lookups -/

theorem findInsensitive_of_has {w : World} (h : Has w.stock centerId name)
    (hname : t.norm name = name) (row : ℕ) :
    ∃ item, w.findInsensitive t centerId name row = some item ∧
      t.norm item.materialType = name := by
  have hrows (item : InventoryItem) (hitem : item ∈ w.stock.matching t centerId name) :
      t.norm item.materialType = name := by
    have hsame := (List.mem_filter.mp hitem).2
    rw [Bool.and_eq_true] at hsame
    rw [Letters.norm_eq_of_insensitive hsame.2, hname]
  obtain ⟨item, hitem, hc, hn⟩ := h
  have hmem : item ∈ w.stock.matching t centerId name := by
    refine List.mem_filter.mpr ⟨hitem, ?_⟩
    rw [hc, hn]
    simp [Letters.insensitive]
  unfold World.findInsensitive
  dsimp only
  cases hrow : (w.stock.matching t centerId name)[row]? with
  | some found => exact ⟨found, rfl, hrows found (List.mem_of_getElem? hrow)⟩
  | none =>
    have hne : w.stock.matching t centerId name ≠ [] := List.ne_nil_of_mem hmem
    exact ⟨_, List.head?_eq_some_head hne, hrows _ (List.head_mem hne)⟩

/-- The tables of the centre go by one code: two spellings that one of them takes for one material
are one to all of them, and what a batch brings in is found by a sale of any such spelling. A price
list is kept under it, and an acceptance adds the weights of a transfer up under it. The code of the
contract is its own code. -/
theorem codes_agree (u : Tables) (material : String) :
    (priceListCode u material = creditCode u material ∧
      saleCode u material = creditCode u material ∧
      transferCode u material = creditCode u material ∧
        rateCode u material = creditCode u material) ∧
    (joiner ∉ material.toList →
      vectorCode u (vectorCode u material) = vectorCode u material) ∧
    (∀ (w w' : World) (batch : BatchCredit), w.credit (letters u) batch = some w' →
      ∀ weight, (material, weight) ∈ batch.weighed → 0 < weight →
      ∀ name, saleCode u name = creditCode u material → ∀ row,
        ∃ item, w'.findInsensitive (letters u) batch.centerId (saleCode u name) row = some item ∧
          creditCode u item.materialType = creditCode u material) ∧
    (∀ center rows rows' centerId prices, updatePriceList (letters u) center rows centerId prices =
      .ok rows' →
      ∀ k, k ∈ rows'.map AcopioPriceList.key ↔
        k ∈ rows.map AcopioPriceList.key ∨ ∃ item ∈ prices,
          k = (centerId, priceListCode u item.1)) ∧
    ∀ lines name, name ∈ (weigh (letters u) lines).map Prod.fst ↔
      ∃ line ∈ lines, name = transferCode u line.material := by
  refine ⟨⟨rfl, rfl, rfl, rfl⟩, normalizeMaterialCode_idem, ?_, ?_, fun _ _ => mem_weigh⟩
  · intro w w' batch hcredit weight hmem hweight name hname row
    simp only [World.credit, Option.bind_eq_bind, Option.bind_eq_some_iff, Option.some.injEq]
      at hcredit
    obtain ⟨stock, hstock, rfl⟩ := hcredit
    rw [hname]
    exact findInsensitive_of_has (has_credit hstock hmem hweight) Letters.norm_norm row
  · exact fun _ _ _ _ _ h k => keys_updatePriceList h k
/-! ### A few letters of the tables -/

namespace Sample

def capitals : List (Char × Char) :=
  "abcdefghijklmnopqrstuvwxyzó".toList.zip "ABCDEFGHIJKLMNOPQRSTUVWXYZÓ".toList

def upper (c : Char) : List Char := [(capitals.lookup c).getD c]

def decompose (c : Char) : List Char :=
  if c = 'ó' then ['o', Char.ofNat 0x301] else if c = 'Ó' then ['O', Char.ofNat 0x301] else [c]

def combiningClass (c : Char) : ℕ :=
  if c = Char.ofNat 0x5B4 then 14 else if c = Char.ofNat 0x5B0 then 10
  else if isMark c = true ∧ c ≠ joiner then 230 else 0

def whiteSpace (c : Char) : Bool := c == ' '

theorem upper_cases (c : Char) : upper c = [c] ∨ ∃ d, upper c = [d] ∧ (c, d) ∈ capitals := by
  unfold upper
  cases h : capitals.lookup c with
  | none => exact .inl rfl
  | some d => exact .inr ⟨d, rfl, NumberRecords.mem_of_lookup h⟩

theorem capitals_upper : ∀ e ∈ capitals, upper e.2 = [e.2] := by decide

theorem capitals_whiteSpace : ∀ e ∈ capitals, whiteSpace e.2 = whiteSpace e.1 := by decide

theorem capitals_decomposed : ∀ e ∈ capitals, isMark e.2 = false ∧
    (decompose e.1 = [e.1] → decompose e.2 = [e.2]) := by
  decide

theorem capitals_class : ∀ e ∈ capitals, combiningClass e.1 = 0 ∧ combiningClass e.2 = 0 := by
  decide

theorem decompose_decompose (c : Char) : ∀ d ∈ decompose c, decompose d = [d] := by
  unfold decompose
  split_ifs with hsmall hcapital
  · exact List.forall_mem_cons.mpr ⟨by decide, List.forall_mem_singleton.mpr (by decide)⟩
  · exact List.forall_mem_cons.mpr ⟨by decide, List.forall_mem_singleton.mpr (by decide)⟩
  · intro d hd
    rw [List.mem_singleton.mp hd, if_neg hsmall, if_neg hcapital]

theorem decompose_joiner (c : Char) (h : joiner ∈ decompose c) : c = joiner := by
  unfold decompose at h
  split_ifs at h with hsmall hcapital
  · exact absurd h (by decide)
  · exact absurd h (by decide)
  · exact (List.mem_singleton.mp h).symm

theorem mark_class (c : Char) (h : isMark c = true) (hc : c ≠ joiner) : combiningClass c ≠ 0 := by
  unfold combiningClass
  split_ifs with h14 h10 h230
  · decide
  · decide
  · decide
  · exact absurd ⟨h, hc⟩ h230

theorem upper_upper (c : Char) : ∀ d ∈ upper c, upper d = [d] := by
  rcases upper_cases c with h | ⟨e, h, he⟩ <;> rw [h] <;> intro d hd
    <;> rw [List.mem_singleton.mp hd]
  · exact h
  · exact capitals_upper _ he

theorem upper_whiteSpace (c : Char) : ∀ d ∈ upper c, whiteSpace d = whiteSpace c := by
  rcases upper_cases c with h | ⟨e, h, he⟩ <;> rw [h] <;> intro d hd
    <;> rw [List.mem_singleton.mp hd]
  exact capitals_whiteSpace _ he

theorem upper_decomposed (c : Char) (hmark : isMark c = false) (hc : decompose c = [c]) :
    ∀ d ∈ upper c, isMark d = false ∧ decompose d = [d] := by
  rcases upper_cases c with h | ⟨e, h, he⟩ <;> rw [h] <;> intro d hd
    <;> rw [List.mem_singleton.mp hd]
  · exact ⟨hmark, hc⟩
  · exact (capitals_decomposed _ he).imp id fun hdec => hdec hc

theorem upper_starter (c : Char) (_ : isMark c = false) (_ : decompose c = [c])
    (hc : combiningClass c = 0) :
    ∀ d ∈ upper c, combiningClass d = 0 := by
  rcases upper_cases c with h | ⟨e, h, he⟩ <;> rw [h] <;> intro d hd
    <;> rw [List.mem_singleton.mp hd]
  · exact hc
  · exact (capitals_class _ he).2

theorem upper_nonstarter (c : Char) (_ : isMark c = false) (_ : decompose c = [c])
    (hc : combiningClass c ≠ 0) :
    upper c = [c] := by
  rcases upper_cases c with h | ⟨e, -, he⟩
  · exact h
  · exact absurd (capitals_class _ he).1 hc

def tables : Tables :=
  ⟨decompose, combiningClass, upper, whiteSpace, decompose_decompose, decompose_joiner, mark_class,
    fun _ => List.cons_ne_nil _ _, upper_upper, upper_whiteSpace, upper_decomposed, upper_starter,
    upper_nonstarter⟩

end Sample

def emptyCentre : World where
  users := []
  stock := ⟨[], []⟩
  transfers := []
  sales := []
  certificates := []
  consolidated := []
  transactions := fun _ => false
  nextTx := 0
  rowLock := fun _ => none

theorem five_lt : 5 < 2 ^ 53 := by norm_num

def five : Double := .ofNat 5 five_lt

theorem five_text : five.toDecimal.value = (500 : ℕ) / 100 := by decide +kernel

theorem carton_text : ∀ entry ∈ [("Cartón", five)], ∃ n : ℕ, entry.2.toDecimal.value = n / 100 :=
  fun entry hentry => ⟨500, by rw [List.mem_singleton.mp hentry, five_text]⟩

def cartonBatch : BatchCredit := ⟨"batch", "center", [("Cartón", five)], carton_text⟩

/-- Five kilograms of "Cartón" come in, and are found under "cartón". -/
theorem codes_agree_carton :
    vectorCode Sample.tables (vectorCode Sample.tables "Cartón") =
      vectorCode Sample.tables "Cartón" ∧
      ∃ w', emptyCentre.credit (letters Sample.tables) cartonBatch = some w' ∧
        ∃ item, w'.findInsensitive (letters Sample.tables) "center"
          (saleCode Sample.tables "cartón") 0 =
          some item ∧ creditCode Sample.tables item.materialType =
            creditCode Sample.tables "Cartón" := by
  have hagree := codes_agree Sample.tables "Cartón"
  obtain ⟨w', hw'⟩ := Option.isSome_iff_exists.mp
    (show (emptyCentre.credit (letters Sample.tables) cartonBatch).isSome = true by decide +kernel)
  refine ⟨hagree.2.1 (by decide), w', hw', ?_⟩
  exact hagree.2.2.1 _ w' cartonBatch hw' five.val List.mem_cons_self (by decide +kernel) "cartón"
    (by decide +kernel) 0

def pointed : String := String.ofList [Char.ofNat 0x5B4, joiner, Char.ofNat 0x5B0]

/-- An accent stays in the centre's code and not in the contract's, a movement by hand keeps small
letters, and a joiner leaves points in an order that the second pass changes. -/
theorem codes_differ :
    creditCode Sample.tables "Cartón" = "CARTÓN" ∧ vectorCode Sample.tables "Cartón" = "CARTON" ∧
      movementCode "Cartón" ≠ creditCode Sample.tables "Cartón" ∧
      vectorCode Sample.tables (vectorCode Sample.tables pointed) ≠
        vectorCode Sample.tables pointed := by
  refine ⟨by decide +kernel, by decide +kernel, by decide +kernel, by decide +kernel⟩

end Livora.MaterialCodes
