import Livora.KeyedSums
import Livora.SettlementRaces

/-! What a store has claimed of its tokens: the settlements that are PENDING, approved or
PAID. They stay within the tokens its wallet ever received along every run in which
each request of the store is checked against a balance of the chain that is still
there, with every claim the chain has not applied among the PENDING ones that were
added up. -/

namespace Livora.CashOuts

open DoubleRounding KeyedSums TransitionRuns EffectPrograms ProgramPools ProgramPools.System
open StoreBooks BalanceStages SettlementStages SettlementRaces StoreSettlements CentAmounts
open BackOffice (JobData User)
open PinVerification (truthy)

/-- The settlement claims tokens of its store. -/
def live (row : SettlementRequest) : Bool :=
  row.status == .pending || row.status == .approvedPendingPayment || row.status == .paid

def ownerOf (w : World) (storeId : String) : Option String :=
  (w.stores.find? fun store => store.id == storeId).map StoreProfile.userId

/-- The sum of the settlements of a user's store that pass a test. -/
def total (w : World) (userId : String) (p : SettlementRequest → Bool) : ℚ :=
  ((w.settlements.filter fun row => ownerOf w row.storeId == some userId && p row).map
    SettlementRequest.tokenAmount).sum

def outflow (w : World) (wallet : String) : ℚ := (w.received wallet - w.chain wallet) / 10 ^ 7

/-- A settlement has this amount and belongs to the store of the user. -/
def Backed (w : World) (settlementId userId : String) (tokenAmount : ℚ) : Prop :=
  ∃ row ∈ w.settlements, row.id = settlementId ∧ row.tokenAmount = tokenAmount ∧
    ownerOf w row.storeId = some userId

structure Filed (w : World) : Prop where
  stores : ∀ store ∈ w.stores, ownerOf w store.id = some store.userId
  owned : ∀ row ∈ w.settlements, ∃ userId, ownerOf w row.storeId = some userId
  keys : (w.settlements.map SettlementRequest.id).Nodup
  cents : ∀ row ∈ w.settlements, Cents row.tokenAmount
  spends : ∀ row ∈ w.redemptions, 0 ≤ row.tokenAmount
  jobs : ∀ id userId source target amount,
    .settlementTransfer id userId source target amount ∈ w.queue → Backed w id userId amount

/-- The store has claimed no more than it received, and no more was applied than has left. -/
structure Sound (user : User) (wallet : String) (w : World) : Prop where
  filed : Filed w
  found : w.findUser user.id = some user
  address : truthy user.walletAddress = some wallet
  small : ∀ row ∈ w.settlements, ownerOf w row.storeId = some user.id → row.tokenAmount < 2 ^ 22
  settled : total w user.id SettlementRequest.applied ≤ outflow w wallet
  claimed : total w user.id live ≤ w.received wallet / 10 ^ 7

structure Knows (w : World) (s : Stage) : Prop where
  read : s.reading.shown ≠ none → s.reading.spent ≠ none
  spent : ∀ rows, s.reading.spent = some rows → ∀ row ∈ rows, 0 ≤ row.tokenAmount
  profile : ∀ userId p, s.profile = some (userId, p) → ownerOf w p.id = some userId
  retained : ∀ rows, s.retained = some rows → ∀ row ∈ rows,
    ∃ row' ∈ w.settlements, row'.id = row.id ∧ row'.tokenAmount = row.tokenAmount
  found : ∀ id f, s.found = some (id, f) →
    f.row.id = id ∧ Backed w f.row.id f.storeUser.id f.row.tokenAmount
  owing : ∀ row id f, s.owing = some row → s.found = some (id, f) →
    row.id = f.row.id ∧ row.tokenAmount = f.row.tokenAmount

variable {user : User} {wallet : String} {svc : WalletBalance.Service} {w w' : World}
  {st : ℕ → Option Stage} {j : ℕ} {s : Stage} {i : Op} {o : Outcome} {userId : String}

/-! ### What every step keeps -/

structure Grows (w w' : World) : Prop where
  users : w'.users = w.users
  owners : ∀ storeId userId, ownerOf w storeId = some userId → ownerOf w' storeId = some userId
  rows : ∀ row ∈ w.settlements, ∃ row' ∈ w'.settlements,
    row'.id = row.id ∧ row'.storeId = row.storeId ∧ row'.tokenAmount = row.tokenAmount

/-- The function changes only what happens to a settlement. -/
def Rewrites (f : SettlementRequest → SettlementRequest) : Prop :=
  ∀ row, (f row).id = row.id ∧ (f row).storeId = row.storeId ∧ (f row).tokenAmount = row.tokenAmount

theorem rewrites_setStatus (id : String) (status : SettlementStatus) (receiptUrl : Option String) :
    Rewrites (World.setStatus id status receiptUrl) := by
  intro row
  unfold World.setStatus
  split <;> exact ⟨rfl, rfl, rfl⟩

theorem rewrites_markSettled (id : String) : Rewrites (World.markSettled id) := by
  intro row
  unfold World.markSettled
  split <;> exact ⟨rfl, rfl, rfl⟩

theorem ownerOf_congr (h : w'.stores = w.stores) (storeId : String) :
    ownerOf w' storeId = ownerOf w storeId := by
  unfold ownerOf
  rw [h]

theorem Grows.owner (h : Filed w) (hg : Grows w w') {row : SettlementRequest}
    (hrow : row ∈ w.settlements) : ownerOf w' row.storeId = ownerOf w row.storeId := by
  obtain ⟨userId, howner⟩ := h.owned row hrow
  rw [howner, hg.owners _ _ howner]

theorem Backed.grows {id : String} {amount : ℚ} (h : Backed w id userId amount)
    (hg : Grows w w') : Backed w' id userId amount := by
  obtain ⟨row, hrow, rfl, rfl, howner⟩ := h
  obtain ⟨row', hrow', hid, hstore, hamount⟩ := hg.rows row hrow
  exact ⟨row', hrow', hid, hamount, hstore ▸ hg.owners _ _ howner⟩

theorem Knows.grows (h : Knows w s) (hg : Grows w w') : Knows w' s where
  read := h.read
  spent := h.spent
  profile userId p hp := hg.owners _ _ (h.profile userId p hp)
  retained rows hrows row hrow := by
    obtain ⟨row', hrow', hid, hamount⟩ := h.retained rows hrows row hrow
    obtain ⟨row'', hrow'', hid', -, hamount'⟩ := hg.rows row' hrow'
    exact ⟨row'', hrow'', hid'.trans hid, hamount'.trans hamount⟩
  found id f hf := (h.found id f hf).imp_right fun hb => hb.grows hg
  owing := h.owing

structure Rewritten (f : SettlementRequest → SettlementRequest) (w w' : World) : Prop where
  rewrites : Rewrites f
  users : w'.users = w.users
  stores : w'.stores = w.stores
  settlements : w'.settlements = w.settlements.map f
  queue : w'.queue = w.queue
  spends : (∀ row ∈ w.redemptions, 0 ≤ row.tokenAmount) →
    ∀ row ∈ w'.redemptions, 0 ≤ row.tokenAmount

section Rewriting

variable {f : SettlementRequest → SettlementRequest}

theorem Rewritten.grows (h : Rewritten f w w') : Grows w w' where
  users := h.users
  owners storeId userId howner := (ownerOf_congr h.stores storeId).trans howner
  rows row hrow := by
    refine ⟨f row, ?_, h.rewrites row⟩
    rw [h.settlements]
    exact List.mem_map_of_mem hrow

theorem Rewritten.filed (h : Rewritten f w w') (hw : Filed w) : Filed w' where
  stores store hstore := by
    rw [h.stores] at hstore
    exact h.grows.owners _ _ (hw.stores store hstore)
  owned row hrow := by
    rw [h.settlements] at hrow
    obtain ⟨old, hold, rfl⟩ := List.mem_map.mp hrow
    obtain ⟨userId, howner⟩ := hw.owned old hold
    exact ⟨userId, (h.rewrites old).2.1 ▸ h.grows.owners _ _ howner⟩
  keys := by
    have hids : w'.settlements.map SettlementRequest.id =
        w.settlements.map SettlementRequest.id := by
      rw [h.settlements, List.map_map]
      exact List.map_congr_left fun row _ => (h.rewrites row).1
    rw [hids]
    exact hw.keys
  cents row hrow := by
    rw [h.settlements] at hrow
    obtain ⟨old, hold, rfl⟩ := List.mem_map.mp hrow
    rw [(h.rewrites old).2.2]
    exact hw.cents old hold
  spends := h.spends hw.spends
  jobs id userId source target amount hjob := by
    rw [h.queue] at hjob
    exact (hw.jobs id userId source target amount hjob).grows h.grows

theorem Rewritten.small (h : Rewritten f w w') (hw : Sound user wallet w) :
    ∀ row ∈ w'.settlements, ownerOf w' row.storeId = some user.id → row.tokenAmount < 2 ^ 22 := by
  intro row hrow howner
  rw [h.settlements] at hrow
  obtain ⟨old, hold, rfl⟩ := List.mem_map.mp hrow
  obtain ⟨-, hstore, hamount⟩ := h.rewrites old
  rw [hstore, ownerOf_congr h.stores] at howner
  exact hamount ▸ hw.small old hold howner

theorem Rewritten.total_le (h : Rewritten f w w') (hw : Filed w) {p p' : SettlementRequest → Bool}
    {id : String} {d : ℚ} (hd : 0 ≤ d)
    (hp : ∀ row ∈ w.settlements, ownerOf w row.storeId = some userId → p' (f row) = true →
      p row = true ∨ (row.id = id ∧ row.tokenAmount ≤ d)) :
    total w' userId p' ≤ total w userId p + d := by
  unfold total
  rw [sum_filter, sum_filter, h.settlements, List.map_map]
  refine @sum_map_le_add _ _ SettlementRequest.id _ _ _ _ _ id hw.keys hd fun row hrow => ?_
  have hnonneg := (hw.cents row hrow).nonneg
  obtain ⟨-, hstore, hamount⟩ := h.rewrites row
  simp only [Function.comp_apply, hstore, hamount, ownerOf_congr h.stores, Bool.and_eq_true,
    beq_iff_eq]
  by_cases hafter : ownerOf w row.storeId = some userId ∧ p' (f row) = true
  · rw [if_pos hafter]
    rcases hp row hrow hafter.1 hafter.2 with hbefore | ⟨hid, hle⟩
    · rw [if_pos ⟨hafter.1, hbefore⟩]
      split <;> linarith
    · rw [if_pos hid]
      split <;> linarith
  · rw [if_neg hafter]
    split <;> split <;> linarith

theorem Rewritten.total_mono (h : Rewritten f w w') (hw : Filed w)
    {p p' : SettlementRequest → Bool}
    (hp : ∀ row ∈ w.settlements, ownerOf w row.storeId = some userId → p' (f row) = true →
      p row = true) : total w' userId p' ≤ total w userId p := by
  have hkept (row : SettlementRequest) (hrow : row ∈ w.settlements)
      (howner : ownerOf w row.storeId = some userId) (hafter : p' (f row) = true) :
      p row = true ∨ (row.id = "" ∧ row.tokenAmount ≤ 0) := .inl (hp row hrow howner hafter)
  have hle := h.total_le hw le_rfl hkept
  rwa [add_zero] at hle

theorem Rewritten.sound (h : Rewritten f w w') (hw : Sound user wallet w)
    (hsettled : total w' user.id SettlementRequest.applied ≤ outflow w' wallet)
    (hclaimed : total w' user.id live ≤ w'.received wallet / 10 ^ 7) : Sound user wallet w' where
  filed := h.filed hw.filed
  found := by
    unfold World.findUser
    rw [h.users]
    exact hw.found
  address := hw.address
  small := h.small hw
  settled := hsettled
  claimed := hclaimed

end Rewriting

/-! ### The other writes -/

theorem Sound.restock (h : Sound user wallet w) {stores : List StoreProfile}
    (howners : ∀ storeId userId, ownerOf w storeId = some userId →
      ownerOf { w with stores := stores } storeId = some userId)
    (hstores : ∀ store ∈ stores, ownerOf { w with stores := stores } store.id = some store.userId) :
    Sound user wallet { w with stores := stores } ∧ Grows w { w with stores := stores } := by
  have hg : Grows w { w with stores := stores } :=
    ⟨rfl, howners, fun row hrow => ⟨row, hrow, rfl, rfl, rfl⟩⟩
  have htotal (p : SettlementRequest → Bool) :
      total { w with stores := stores } user.id p = total w user.id p := by
    unfold total
    congr 2
    refine List.filter_congr fun row hrow => ?_
    rw [hg.owner h.filed hrow]
  refine ⟨⟨⟨hstores, fun row hrow => ?_, h.filed.keys, h.filed.cents, h.filed.spends, ?_⟩, h.found,
    h.address, fun row hrow howner => ?_, ?_, ?_⟩, hg⟩
  · rw [hg.owner h.filed hrow]
    exact h.filed.owned row hrow
  · exact fun id userId source target amount hjob =>
      (h.filed.jobs id userId source target amount hjob).grows hg
  · rw [hg.owner h.filed hrow] at howner
    exact h.small row hrow howner
  · rw [htotal]
    exact h.settled
  · rw [htotal]
    exact h.claimed

theorem Sound.createStoreProfile (h : Sound user wallet w) (storeId userId : String) :
    Sound user wallet (w.createStoreProfile storeId userId) ∧
      Grows w (w.createStoreProfile storeId userId) := by
  unfold World.createStoreProfile
  split
  · exact ⟨h, ⟨rfl, fun _ _ howner => howner, fun row hrow => ⟨row, hrow, rfl, rfl, rfl⟩⟩⟩
  · rename_i hnew
    have hold (id u : String) (howner : ownerOf w id = some u) :
        ownerOf { w with stores := w.stores ++ [⟨storeId, userId, ""⟩] } id = some u := by
      obtain ⟨store, hstore, hu⟩ := Option.map_eq_some_iff.mp howner
      unfold ownerOf
      rw [List.find?_append, hstore]
      exact congrArg some hu
    refine h.restock hold fun store hstore => ?_
    rcases List.mem_append.mp hstore with hmem | hmem
    · exact hold _ _ (h.filed.stores store hmem)
    · obtain rfl := List.mem_singleton.mp hmem
      have hnone : w.stores.find? (fun store => store.id == storeId) = none := by
        refine List.find?_eq_none.mpr fun store hstore hid => hnew ?_
        unfold World.hasProfile
        exact List.any_eq_true.mpr ⟨store, hstore, by simp [beq_iff_eq.mp hid]⟩
      unfold ownerOf
      rw [List.find?_append, hnone]
      simp

theorem Sound.setBankAccount (h : Sound user wallet w) (storeId bankAccount : String) :
    Sound user wallet (w.setBankAccount storeId bankAccount) ∧
      Grows w (w.setBankAccount storeId bankAccount) := by
  have hrewrite (store : StoreProfile) :
      (if store.id = storeId then { store with bankAccount := bankAccount } else store).id =
        store.id ∧
      (if store.id = storeId then { store with bankAccount := bankAccount } else store).userId =
        store.userId := by
    split <;> exact ⟨rfl, rfl⟩
  have howner (id : String) : ownerOf (w.setBankAccount storeId bankAccount) id = ownerOf w id := by
    unfold ownerOf World.setBankAccount
    simp only [List.find?_map, Option.map_map]
    congr 1
    · funext store
      exact (hrewrite store).2
    · congr 1
      funext store
      simp only [Function.comp_apply, (hrewrite store).1]
  refine h.restock (fun id u hu => (howner id).trans hu) fun store hstore => ?_
  obtain ⟨old, hold, rfl⟩ := List.mem_map.mp hstore
  refine (howner _).trans ?_
  rw [(hrewrite old).1, (hrewrite old).2]
  exact h.filed.stores old hold

theorem Sound.enqueue (h : Sound user wallet w) {data : JobData}
    (hdata : ∀ id userId source target amount,
      data = .settlementTransfer id userId source target amount → Backed w id userId amount) :
    Sound user wallet { w with queue := w.queue ++ [data] } ∧
      Grows w { w with queue := w.queue ++ [data] } := by
  refine ⟨⟨⟨h.filed.stores, h.filed.owned, h.filed.keys, h.filed.cents, h.filed.spends, ?_⟩,
    h.found, h.address, h.small, h.settled, h.claimed⟩,
    ⟨rfl, fun _ _ howner => howner, fun row hrow => ⟨row, hrow, rfl, rfl, rfl⟩⟩⟩
  intro id userId source target amount hjob
  rcases List.mem_append.mp hjob with hold | hnew
  · exact h.filed.jobs id userId source target amount hold
  · exact hdata id userId source target amount (List.mem_singleton.mp hnew).symm

/-! ### Requests that are covered -/

def retainedIn (rows : List SettlementRequest) (row : SettlementRequest) : Bool :=
  rows.any fun r => r.id == row.id

/-- The balance was the chain's and is still there, less what was PENDING and has left since; every
other claim of the store has left, or was among the PENDING ones. -/
def Covering (user : User) (wallet : String) (w : World) (s : Stage) (amount : ℚ) : Prop :=
  ∃ cents rows, s.reading.shown = some cents ∧ s.retained = some rows ∧
    0 < cents ∧ (cents : ℚ) / 100 < 2 ^ 40 ∧
    (cents : ℚ) / 100 ≤ w.chain wallet / 10 ^ 7 +
      total w user.id (fun row => row.applied && retainedIn rows row) ∧
    (∀ row ∈ w.settlements, ownerOf w row.storeId = some user.id → live row = true →
      row.applied = true ∨ retainedIn rows row = true) ∧
    ∀ stored, storedAmount amount = some stored → stored < 2 ^ 22

theorem retained_total_le (hw : Filed w) (hk : Knows w s) {rows : List SettlementRequest}
    (hrows : s.retained = some rows) :
    total w userId (retainedIn rows) ≤ (rows.map SettlementRequest.tokenAmount).sum := by
  have hkept := hk.retained rows hrows
  refine @sum_filter_le_of_keys _ _ SettlementRequest.id _ _ _ _ hw.keys (fun row hrow => ?_)
    fun row hrow hretained => ?_
  · obtain ⟨row', hrow', -, hamount⟩ := hkept row hrow
    exact hamount ▸ (hw.cents row' hrow').nonneg
  · obtain ⟨r, hr, hid⟩ := List.any_eq_true.mp (Bool.and_eq_true_iff.mp hretained).2
    obtain ⟨row', hrow', hid', hamount⟩ := hkept r hr
    have hsame : row' = row :=
      List.inj_on_of_nodup_map hw.keys hrow' hrow (hid'.trans (beq_iff_eq.mp hid))
    exact ⟨r, hr, beq_iff_eq.mp hid, hsame ▸ hamount.symm⟩

theorem live_total_le (hw : Filed w) {rows : List SettlementRequest}
    (hlive : ∀ row ∈ w.settlements, ownerOf w row.storeId = some userId → live row = true →
      row.applied = true ∨ retainedIn rows row = true) :
    total w userId live + total w userId (fun row => row.applied && retainedIn rows row) ≤
      total w userId SettlementRequest.applied + total w userId (retainedIn rows) := by
  unfold total
  rw [sum_filter, sum_filter, sum_filter, sum_filter, ← List.sum_map_add, ← List.sum_map_add]
  refine List.sum_le_sum fun row hrow => ?_
  have hnonneg := (hw.cents row hrow).nonneg
  simp only [Bool.and_eq_true, beq_iff_eq]
  by_cases howner : ownerOf w row.storeId = some userId
  · have hcover := hlive row hrow howner
    by_cases hrowlive : live row = true <;> by_cases happlied : row.applied = true <;>
      by_cases hretained : retainedIn rows row = true <;>
      simp_all
  · simp [howner]

theorem claim_covered (h : Sound user wallet w) (hk : Knows w s) {storeId : String}
    {amount stored : ℚ}
    (hrequested : Requested s storeId amount) (hcovering : Covering user wallet w s amount)
    (hstored : storedAmount amount = some stored) :
    stored + total w user.id live ≤ w.received wallet / 10 ^ 7 := by
  obtain ⟨shown, rows, hshown, hretained, hpos, hsmall, hthere, hlive, -⟩ := hcovering
  obtain ⟨⟨userId, profile, cents, rows', -, -, hreported, hretained', hcheck⟩, dto, rfl⟩ :=
    hrequested
  obtain rfl : rows' = rows := Option.some.inj (hretained'.symm.trans hretained)
  -- what is reported is no more than what was shown
  have hle : cents ≤ shown := by
    cases hspent : s.reading.spent with
    | none => exact absurd hspent (hk.read (by rw [hshown]; exact Option.some_ne_none _))
    | some spent =>
      rw [hreported.chain spent shown hspent hshown hpos]
      refine toFixed2_rest_le hsmall (roundedSum_nonneg fun a ha => ?_)
      obtain ⟨row, hrow, rfl⟩ := List.mem_map.mp ha
      exact hk.spent spent hspent row hrow
  -- the amount and what was PENDING are cents
  obtain ⟨m, hm⟩ := dto.twoDecimals
  have hamount : dto.tokenAmount.val = fl (m / 100) := by
    rw [← hm]
    exact Double.ofRat?_eq_some.mp (Double.parse_toDecimal dto.tokenAmount)
  obtain rfl := storedAmount_text hm hstored
  have hcolumn := (abs_lt.mp (abs_storedAmount_lt hstored)).2
  have hrowsCents : ∀ a ∈ rows'.map SettlementRequest.tokenAmount, Cents a := by
    intro a ha
    obtain ⟨row, hrow, rfl⟩ := List.mem_map.mp ha
    obtain ⟨row', hrow', -, hkept⟩ := hk.retained rows' hretained row hrow
    exact hkept ▸ h.filed.cents row' hrow'
  obtain ⟨p, hp⟩ := cents_sum hrowsCents
  have hchecked : m + p ≤ cents := by
    refine add_le_of_available (r := cents) (m := m) ?_ ?_ ?_ ?_
    · have hcast : (cents : ℚ) ≤ shown := by exact_mod_cast hle
      linarith
    · norm_num at hcolumn ⊢
      linarith
    · rw [← hamount]
      exact lt_of_lt_of_le (by norm_num) dto.least
    · rw [← hamount, ← hp]
      exact hcheck
  have hsum : (m : ℚ) / 100 + (rows'.map SettlementRequest.tokenAmount).sum ≤ shown / 100 := by
    rw [hp]
    have : ((m + p : ℕ) : ℚ) ≤ shown := by exact_mod_cast hchecked.trans hle
    push_cast at this
    linarith
  have hrows := @retained_total_le _ _ user.id h.filed hk _ hretained
  have hclaims := @live_total_le _ user.id h.filed _ hlive
  have hsettled := h.settled
  rw [outflow, sub_div] at hsettled
  linarith

theorem Sound.createSettlement (h : Sound user wallet w) {id storeId : String} {amount : ℚ}
    (howned : ∃ userId, ownerOf w storeId = some userId)
    (hcents : ∀ stored, storedAmount amount = some stored → Cents stored)
    (hclaim : ownerOf w storeId = some user.id → ∀ stored, storedAmount amount = some stored →
      stored < 2 ^ 22 ∧ stored + total w user.id live ≤ w.received wallet / 10 ^ 7) :
    Sound user wallet (w.createSettlement id storeId amount) ∧
      Grows w (w.createSettlement id storeId amount) := by
  have hself : Sound user wallet w ∧ Grows w w :=
    ⟨h, rfl, fun _ _ howner => howner, fun row hrow => ⟨row, hrow, rfl, rfl, rfl⟩⟩
  unfold World.createSettlement
  split
  swap
  · exact hself
  rename_i stored hstored
  split
  · exact hself
  rename_i hnew
  generalize hrow : (⟨id, storeId, stored, stored, .pending, none, false⟩ : SettlementRequest) = row
  have hg : Grows w { w with settlements := w.settlements ++ [row] } :=
    ⟨rfl, fun _ _ howner => howner, fun old hold =>
      ⟨old, List.mem_append_left _ hold, rfl, rfl, rfl⟩⟩
  have htotal (p : SettlementRequest → Bool) :
      total { w with settlements := w.settlements ++ [row] } user.id p = total w user.id p +
        if ownerOf w row.storeId = some user.id ∧ p row = true then row.tokenAmount else 0 := by
    unfold total
    rw [List.filter_append, List.map_append, List.sum_append]
    congr 1
    by_cases hp : ownerOf w row.storeId = some user.id ∧ p row = true
    · rw [if_pos hp, List.filter_cons_of_pos (by simpa [ownerOf] using hp)]
      simp
    · rw [if_neg hp, List.filter_cons_of_neg (by simpa [ownerOf] using hp)]
      simp
  refine ⟨⟨⟨h.filed.stores, ?_, ?_, ?_, h.filed.spends, ?_⟩, h.found, h.address, ?_, ?_, ?_⟩, hg⟩
  · intro r hr
    rcases List.mem_append.mp hr with hold | hlast
    · exact h.filed.owned r hold
    · obtain rfl := List.mem_singleton.mp hlast
      exact hrow ▸ howned
  · rw [List.map_append, List.nodup_append]
    refine ⟨h.filed.keys, List.nodup_singleton _, ?_⟩
    rintro _ hold _ hlast rfl
    obtain ⟨old, hmem, hid⟩ := List.mem_map.mp hold
    rw [List.map_singleton, List.mem_singleton, ← hrow] at hlast
    refine hnew (List.find?_isSome.mpr ⟨old, hmem, ?_⟩)
    rw [hid, hlast]
    exact beq_self_eq_true _
  · intro r hr
    rcases List.mem_append.mp hr with hold | hlast
    · exact h.filed.cents r hold
    · rw [List.mem_singleton.mp hlast, ← hrow]
      exact hcents stored hstored
  · exact fun id userId source target amount hjob =>
      (h.filed.jobs id userId source target amount hjob).grows hg
  · intro r hr howner
    rcases List.mem_append.mp hr with hold | hlast
    · exact h.small r hold howner
    · obtain rfl := List.mem_singleton.mp hlast
      subst hrow
      exact (hclaim howner stored hstored).1
  · rw [htotal, if_neg (by rw [← hrow]; simp), add_zero]
    exact h.settled
  · rw [htotal, ← hrow]
    split
    · rename_i hmine
      have hcovered := (hclaim hmine.1 stored hstored).2
      simp only
      linarith
    · rw [add_zero]
      exact h.claimed

/-! ### Updates and transfers -/

theorem live_iff {row : SettlementRequest} : live row = true ↔ row.status ≠ .rejected := by
  unfold live
  cases row.status <;> decide

theorem Filed.find (h : Filed w) {row : SettlementRequest} (hrow : row ∈ w.settlements) :
    w.findSettlement row.id = some row := by
  cases hfind : w.findSettlement row.id with
  | none => exact absurd (List.find?_eq_none.mp hfind row hrow) (by simp)
  | some r =>
    have hid := id_of_findSettlement hfind
    exact congrArg some (List.inj_on_of_nodup_map h.keys (List.mem_of_find?_eq_some hfind) hrow hid)

/-- No settlement of the user's store that was REJECTED is claimed again. -/
def Revives (user : User) (w : World) (id : String) (status : SettlementStatus) : Prop :=
  status ≠ .rejected ∧ ∃ row, w.findSettlement id = some row ∧
    ownerOf w row.storeId = some user.id ∧ row.status = .rejected

theorem Sound.updateSettlement (h : Sound user wallet w) {id : String} {status : SettlementStatus}
    {receiptUrl : Option String} (hstatus : ¬ Revives user w id status) :
    Sound user wallet (w.updateSettlement id status receiptUrl) ∧
      Grows w (w.updateSettlement id status receiptUrl) := by
  have hrewritten : Rewritten (World.setStatus id status receiptUrl) w
      (w.updateSettlement id status receiptUrl) :=
    ⟨rewrites_setStatus id status receiptUrl, rfl, rfl, rfl, rfl, fun h => h⟩
  refine ⟨hrewritten.sound h ?_ ?_, hrewritten.grows⟩
  · refine (hrewritten.total_mono h.filed fun row _ _ happlied => ?_).trans h.settled
    unfold World.setStatus at happlied
    split at happlied <;> exact happlied
  · refine (hrewritten.total_mono h.filed fun row hrow howner hlive => ?_).trans h.claimed
    by_cases hid : row.id = id
    · rw [live_iff] at hlive ⊢
      rw [World.setStatus, if_pos hid] at hlive
      exact fun hrejected => hstatus ⟨hlive, row, hid ▸ h.filed.find hrow, howner, hrejected⟩
    · rwa [World.setStatus, if_neg hid] at hlive

theorem payout_eq_some {n : ℕ} {p : Payout} (h : payout w n = some p) : ∃ userId source u,
    .settlementTransfer p.settlementId userId source p.target p.tokenAmount ∈ w.queue ∧
      w.findUser userId = some u ∧ truthy u.walletAddress = some p.source ∧
        stroops p.tokenAmount ≤ w.chain p.source := by
  unfold payout at h
  split at h
  · rename_i hjob
    obtain ⟨u, hu, h⟩ := Option.bind_eq_some_iff.mp h
    obtain ⟨source, hsource, h⟩ := Option.bind_eq_some_iff.mp h
    split at h
    · cases h
      exact ⟨_, _, u, List.mem_of_getElem? hjob, hu, hsource, ‹_›⟩
    · cases h
  · cases h

theorem outflow_transfer {id source target : String} {amount : ℚ}
    (hamount : stroops amount ≤ w.chain source) :
    outflow (w.transferSettlement id source target amount) wallet =
      outflow w wallet + if source = wallet then (stroops amount : ℚ) / 10 ^ 7 else 0 := by
  unfold outflow World.transferSettlement World.moveTokens
  by_cases hsource : source = wallet
  · subst hsource
    simp only [if_true]
    rw [Nat.cast_add, Nat.cast_add, Nat.cast_sub hamount]
    ring
  · simp only [hsource, Ne.symm hsource, if_false, Nat.sub_zero]
    rw [Nat.cast_add, Nat.cast_add]
    ring

theorem received_transfer {id source target : String} {amount : ℚ} :
    w.received wallet ≤ (w.transferSettlement id source target amount).received wallet :=
  Nat.le_add_right _ _

theorem Sound.transfer (h : Sound user wallet w) {n : ℕ} {p : Payout} (hp : payout w n = some p) :
    Sound user wallet (w.transferSettlement p.settlementId p.source p.target p.tokenAmount) ∧
      Grows w (w.transferSettlement p.settlementId p.source p.target p.tokenAmount) := by
  obtain ⟨userId, source, u, hjob, hu, hwallet, hfunds⟩ := payout_eq_some hp
  obtain ⟨row, hrow, hid, hamount, howner⟩ := h.filed.jobs _ _ _ _ _ hjob
  have hrewritten : Rewritten (World.markSettled p.settlementId) w
      (w.transferSettlement p.settlementId p.source p.target p.tokenAmount) :=
    ⟨rewrites_markSettled p.settlementId, rfl, rfl, rfl, rfl, fun h => h⟩
  have hsame (r : SettlementRequest) (hr : r ∈ w.settlements) (hrid : r.id = p.settlementId) :
      r = row := List.inj_on_of_nodup_map h.filed.keys hr hrow (hrid.trans hid.symm)
  have happlied (r : SettlementRequest)
      (hr : (World.markSettled p.settlementId r).applied = true) :
      r.applied = true ∨ r.id = p.settlementId := by
    by_cases hrid : r.id = p.settlementId
    · exact .inr hrid
    · rw [World.markSettled, if_neg hrid] at hr
      exact .inl hr
  refine ⟨hrewritten.sound h ?_ ?_, hrewritten.grows⟩
  · rw [outflow_transfer hfunds]
    by_cases hmine : userId = user.id
    · -- the tokens of the settlement leave the wallet of its store
      subst hmine
      obtain rfl : user = u := Option.some.inj (h.found.symm.trans hu)
      obtain rfl : wallet = p.source := Option.some.inj (h.address.symm.trans hwallet)
      obtain ⟨k, hk⟩ := h.filed.cents row hrow
      have hsmall := h.small row hrow howner
      rw [hamount] at hk hsmall
      have hstroops : (stroops p.tokenAmount : ℚ) / 10 ^ 7 = p.tokenAmount := by
        rw [hk, stroops_cents (hk ▸ hsmall)]
        push_cast
        ring
      rw [if_pos rfl, hstroops]
      have hle : total _ user.id SettlementRequest.applied ≤
          total w user.id SettlementRequest.applied + p.tokenAmount :=
        hrewritten.total_le h.filed (hamount ▸ (h.filed.cents row hrow).nonneg)
        fun r hr _ hafter => (happlied r hafter).imp_right fun hrid =>
          ⟨hrid, by rw [hsame r hr hrid, hamount]⟩
      have hsettled := h.settled
      linarith
    · have hle : total _ user.id SettlementRequest.applied ≤
          total w user.id SettlementRequest.applied := hrewritten.total_mono h.filed
        fun r hr hrowner hafter => (happlied r hafter).resolve_right fun hrid => by
          rw [hsame r hr hrid, howner] at hrowner
          exact hmine (Option.some.inj hrowner)
      refine (hle.trans h.settled).trans (le_add_of_nonneg_right ?_)
      split <;> positivity
  · refine (hrewritten.total_mono h.filed fun r _ _ hlive => ?_).trans (h.claimed.trans ?_)
    · unfold World.markSettled at hlive
      split at hlive <;> exact hlive
    · have hcast : (w.received wallet : ℚ) ≤ ((w.transferSettlement p.settlementId p.source p.target
          p.tokenAmount).received wallet : ℕ) := by exact_mod_cast received_transfer
      exact div_le_div_of_nonneg_right hcast (by norm_num)

theorem Sound.money (h : Sound user wallet w) (hrewritten : Rewritten id w w')
    (houtflow : outflow w wallet ≤ outflow w' wallet)
    (hreceived : w.received wallet ≤ w'.received wallet) : Sound user wallet w' ∧ Grows w w' := by
  refine ⟨hrewritten.sound h ?_ ?_, hrewritten.grows⟩
  · exact ((hrewritten.total_mono h.filed fun row _ _ hp => hp).trans h.settled).trans houtflow
  · refine ((hrewritten.total_mono h.filed fun row _ _ hp => hp).trans h.claimed).trans ?_
    exact div_le_div_of_nonneg_right (by exact_mod_cast hreceived) (by norm_num)

theorem rewrites_id : Rewrites id := fun _ => ⟨rfl, rfl, rfl⟩

theorem outside_sound (h : Sound user wallet w) {d : Outside} (hw : outside w d = some w') :
    Sound user wallet w' ∧ Grows w w' := by
  obtain ⟨rs, books, hspends, rfl⟩ | ⟨a, n, rfl⟩ | ⟨a, n, hn, rfl⟩ | ⟨n, p, hp, rfl⟩ :=
    outside_cases hw
  · exact h.money ⟨rewrites_id, rfl, rfl, (List.map_id _).symm, rfl, fun _ => hspends⟩ le_rfl le_rfl
  · refine h.money ⟨rewrites_id, rfl, rfl, (List.map_id _).symm, rfl, fun h => h⟩ (le_of_eq ?_)
      (Nat.le_add_right _ _)
    unfold outflow World.credit
    rw [Nat.cast_add, Nat.cast_add]
    ring
  · refine h.money ⟨rewrites_id, rfl, rfl, (List.map_id _).symm, rfl, fun h => h⟩ ?_ le_rfl
    have hchain : ((w.debit a n).chain wallet : ℚ) ≤ w.chain wallet := by
      exact_mod_cast Nat.sub_le _ _
    exact div_le_div_of_nonneg_right (sub_le_sub_left hchain _) (by norm_num)
  · exact h.transfer hp

/-! ### Calls -/

/-- A request of the store is covered when it takes effect, and what was REJECTED stays so. -/
def CoveredCall (user : User) (wallet : String) (w : World) (s : Stage) (i : Op) (o : Outcome) :
    Prop :=
  match i with
  | .createSettlement storeId amount => o.delivery.applied = true →
      ownerOf w storeId = some user.id → Covering user wallet w s amount
  | .updateSettlement id status _ => o.delivery.applied = true → ¬ Revives user w id status
  | _ => True

theorem Grows.refl (w : World) : Grows w w :=
  ⟨rfl, fun _ _ howner => howner, fun row hrow => ⟨row, hrow, rfl, rfl, rfl⟩⟩

theorem update_id (w : World) (d : PinVerification.Delivery) : w.update d (fun w => w) = w := by
  unfold World.update
  split <;> rfl

theorem after_balance (h : Balance i) : w.after i o = w := by
  cases i <;> first
    | exact update_id w o.delivery
    | (rcases h with h | ⟨storeId, he⟩
       · exact False.elim h
       · cases he)

theorem sound_update (h : Sound user wallet w) {f : World → World}
    (hf : Sound user wallet (f w) ∧ Grows w (f w)) :
    Sound user wallet (w.update o.delivery f) ∧ Grows w (w.update o.delivery f) := by
  unfold World.update
  split
  · exact hf
  · exact ⟨h, .refl w⟩

theorem after_sound (h : Sound user wallet w) (hk : Knows w s) (hallowed : Allowed s i)
    (hcovered : CoveredCall user wallet w s i o) :
    Sound user wallet (w.after i o) ∧ Grows w (w.after i o) := by
  have hsame : Sound user wallet w ∧ Grows w w := ⟨h, .refl w⟩
  cases i with
  | findOwnProfile id => exact sound_update (f := fun w => w) h hsame
  | emit id event => exact sound_update (f := fun w => w) h hsame
  | pendingSettlements storeId => exact sound_update (f := fun w => w) h hsame
  | findSettlement id => exact sound_update (f := fun w => w) h hsame
  | createStoreProfile id =>
    exact sound_update (f := fun w => w.createStoreProfile o.id id) h (h.createStoreProfile o.id id)
  | setBankAccount storeId bankAccount =>
    exact sound_update (f := fun w => w.setBankAccount storeId bankAccount) h
      (h.setBankAccount storeId bankAccount)
  | createSettlement storeId amount =>
    change Sound user wallet
      (if o.delivery.applied then w.createSettlement o.id storeId amount else w) ∧
      Grows w (if o.delivery.applied then w.createSettlement o.id storeId amount else w)
    split
    · rename_i happlied
      obtain ⟨⟨userId, profile, -, -, hprofile, rfl, -⟩, dto, rfl⟩ := id hallowed
      refine h.createSettlement ⟨userId, hk.profile userId profile hprofile⟩ ?_ ?_
      · intro stored hstored
        obtain ⟨m, hm⟩ := dto.twoDecimals
        exact ⟨m, storedAmount_text hm hstored⟩
      · intro howner stored hstored
        have hcovering := hcovered happlied howner
        refine ⟨?_, claim_covered h hk hallowed hcovering hstored⟩
        obtain ⟨-, -, -, -, -, -, -, -, hsmall⟩ := hcovering
        exact hsmall stored hstored
    · exact hsame
  | updateSettlement id status receiptUrl =>
    rw [after_update]
    split
    · exact h.updateSettlement (hcovered ‹_›)
    · exact hsame
  | add data attempts =>
    refine sound_update (f := fun w => { w with queue := w.queue ++ [data] }) h (h.enqueue ?_)
    intro id userId source target amount hdata
    obtain ⟨row, settlementId, f, source', target', howing, hfound, rfl⟩ := hallowed
    cases hdata
    obtain ⟨hid, hamount⟩ := hk.owing row settlementId f howing hfound
    rw [hid, hamount]
    exact (hk.found settlementId f hfound).2
  | _ =>
    rw [after_balance hallowed.1]
    exact hsame

theorem backed_found {settlementId : String} {f : FoundSettlement}
    (hreply : w.reply (.findSettlement settlementId) o = .ok (some f)) :
    f.row.id = settlementId ∧ Backed w f.row.id f.storeUser.id f.row.tokenAmount := by
  obtain ⟨-, hread⟩ := PinVerification.Delivery.answer_ok hreply
  obtain ⟨row, hrow, hread⟩ := Option.bind_eq_some_iff.mp hread
  obtain ⟨found, hstore, hread⟩ := Option.bind_eq_some_iff.mp hread
  obtain ⟨store, hfind, hstore⟩ := Option.bind_eq_some_iff.mp hstore
  obtain ⟨u, hu, hstore⟩ := Option.bind_eq_some_iff.mp hstore
  cases hstore
  cases hread
  have huser : u.id = store.userId := by simpa using List.find?_some hu
  refine ⟨id_of_findSettlement hrow, row, List.mem_of_find?_eq_some hrow, rfl, rfl, ?_⟩
  unfold ownerOf
  rw [hfind, huser]
  rfl

theorem updated_row (h : Filed w) {id : String} {status : SettlementStatus}
    {receiptUrl : Option String} {row : SettlementRequest} {f : FoundSettlement}
    (hreply : w.reply (.updateSettlement id status receiptUrl) o = .ok row) (hid : id = f.row.id)
    (hbacked : Backed w f.row.id f.storeUser.id f.row.tokenAmount) :
    row.id = f.row.id ∧ row.tokenAmount = f.row.tokenAmount := by
  obtain ⟨-, old, hold, rfl⟩ := World.reply_updateSettlement hreply
  obtain ⟨row, hrow, hrowid, hamount, -⟩ := hbacked
  obtain ⟨hsame, -, hsameAmount⟩ := rewrites_setStatus id status receiptUrl old
  have hfind := h.find hrow
  rw [hrowid, ← hid, hold] at hfind
  obtain rfl := Option.some.inj hfind
  exact ⟨hsame.trans hrowid, hsameAmount.trans hamount⟩

theorem next_owing {r : Except Failure (Reply i)} {row : SettlementRequest}
    (h : (next s i r).owing = some row) : s.owing = some row ∨
      ∃ id receiptUrl, i = .updateSettlement id .paid receiptUrl ∧
        HEq r (Except.ok (ε := Failure) row) := by
  unfold next at h
  split at h
  case h_5 =>
    cases h
    exact .inr ⟨_, _, rfl, .rfl⟩
  case h_6 => cases h
  case h_7 => cases h
  all_goals exact .inl h

theorem after_createStoreProfile (hdone : o.delivery = .done) {id : String} :
    w.after (.createStoreProfile id) o = w.createStoreProfile o.id id := by
  change w.update o.delivery (fun w => w.createStoreProfile o.id id) = _
  unfold World.update
  rw [hdone]
  rfl

theorem told_profile (h : Filed w) (hg : Grows w (w.after i o)) (hafter : Filed (w.after i o))
    {p : StoreProfile} :
    (i = .findOwnProfile userId → HEq (w.reply i o) (Except.ok (ε := Failure) (some p)) →
      ownerOf (w.after i o) p.id = some userId) ∧
    (i = .createStoreProfile userId → HEq (w.reply i o) (Except.ok (ε := Failure) p) →
      ownerOf (w.after i o) p.id = some userId) := by
  constructor
  · rintro rfl hreply
    obtain ⟨-, hfind⟩ := PinVerification.Delivery.answer_ok (eq_of_heq hreply)
    have huser : p.userId = userId := by simpa using List.find?_some hfind
    exact huser ▸ hg.owners _ _ (h.stores p (List.mem_of_find?_eq_some hfind))
  · rintro rfl hreply
    have hreply : (if w.hasProfile o.id userId then .error .outside
        else o.delivery.answer .outside ⟨o.id, userId, ""⟩ : Except Failure StoreProfile) = .ok p :=
      eq_of_heq hreply
    split at hreply
    · cases hreply
    · rename_i hnew
      obtain ⟨hdone, rfl⟩ := PinVerification.Delivery.answer_ok hreply
      rw [after_createStoreProfile hdone] at hafter ⊢
      refine hafter.stores ⟨o.id, userId, ""⟩ ?_
      rw [World.createStoreProfile, if_neg hnew]
      exact List.mem_append_right _ List.mem_cons_self

theorem next_profile {r : Except Failure (Reply i)} {p : StoreProfile}
    (h : (next s i r).profile = some (userId, p)) : s.profile = some (userId, p) ∨
      (i = .findOwnProfile userId ∧ HEq r (Except.ok (ε := Failure) (some p))) ∨
      (i = .createStoreProfile userId ∧ HEq r (Except.ok (ε := Failure) p)) := by
  unfold next at h
  split at h
  case h_1 =>
    cases h
    exact .inr (.inl ⟨rfl, .rfl⟩)
  case h_2 =>
    cases h
    exact .inr (.inr ⟨rfl, .rfl⟩)
  all_goals exact .inl h

theorem next_retained {r : Except Failure (Reply i)} {rows : List SettlementRequest}
    (h : (next s i r).retained = some rows) : s.retained = some rows ∨
      ∃ storeId, i = .pendingSettlements storeId ∧ HEq r (Except.ok (ε := Failure) rows) := by
  unfold next at h
  split at h
  case h_3 =>
    cases h
    exact .inr ⟨_, rfl, .rfl⟩
  all_goals exact .inl h

theorem next_reading (r : Except Failure (Reply i)) :
    (next s i r).reading = s.reading.next i r := by
  cases i <;> cases r <;> first
    | rfl
    | (rename_i found
       cases found <;> rfl)
    | (rename_i status _ _
       cases status <;> rfl)

theorem reading_spent {r : Except Failure (Reply i)} {rows : List RedemptionTransaction}
    (h : (s.reading.next i r).spent = some rows) : s.reading.spent = some rows ∨
      ∃ id, i = .completedRedemptions id ∧ HEq r (Except.ok (ε := Failure) rows) := by
  unfold Reading.next at h
  split at h
  · cases h
  · obtain rfl := Option.some.inj h
    exact .inr ⟨_, rfl, .rfl⟩
  · exact .inl h
  · exact .inl h

theorem reading_read (hallowed : Allowed s i) (hk : Knows w s) {r : Except Failure (Reply i)}
    (h : (s.reading.next i r).shown ≠ none) : (s.reading.next i r).spent ≠ none := by
  unfold Reading.next at h ⊢
  split at h
  · exact absurd rfl h
  · exact absurd rfl h
  · obtain ⟨-, -, rows, -, -, hspent⟩ := hallowed.2
    simp [hspent]
  · exact hk.read h

theorem knows_next (h : Filed w) (hg : Grows w (w.after i o)) (hafter : Filed (w.after i o))
    (hk : Knows w s) (hallowed : Allowed s i) :
    Knows (w.after i o) (next s i (w.reply i o)) where
  read := by
    rw [next_reading]
    exact reading_read hallowed hk
  spent rows hrows row hrow := by
    rw [next_reading] at hrows
    rcases reading_spent hrows with hold | ⟨id, rfl, hreply⟩
    · exact hk.spent rows hold row hrow
    · obtain ⟨-, rfl⟩ := PinVerification.Delivery.answer_ok (eq_of_heq hreply)
      exact h.spends row (List.mem_of_mem_filter hrow)
  profile id p hp := by
    rcases next_profile hp with hold | ⟨hi, hreply⟩ | ⟨hi, hreply⟩
    · exact hg.owners _ _ (hk.profile id p hold)
    · exact (told_profile h hg hafter).1 hi hreply
    · exact (told_profile h hg hafter).2 hi hreply
  retained rows hrows row hrow := by
    rcases next_retained hrows with hold | ⟨storeId, rfl, hreply⟩
    · exact (hk.grows hg).retained rows hold row hrow
    · obtain ⟨-, rfl⟩ := PinVerification.Delivery.answer_ok (eq_of_heq hreply)
      obtain ⟨row', hrow', hid, -, hamount⟩ := hg.rows row (List.mem_of_mem_filter hrow)
      exact ⟨row', hrow', hid, hamount⟩
  found id f hf := by
    rcases next_found (s := s) (r := w.reply i o) with hsame | ⟨id', f', rfl, hfound, hreply⟩
    · exact (hk.grows hg).found id f (hsame ▸ hf)
    · obtain ⟨rfl, rfl⟩ := Prod.mk.inj (Option.some.inj (hfound.symm.trans hf))
      exact (backed_found (eq_of_heq hreply)).imp_right fun hb => hb.grows hg
  owing row id f howing hf := by
    rcases next_owing howing with hold | ⟨id', receiptUrl, rfl, hreply⟩
    · rcases next_found (s := s) (r := w.reply i o) with hsame | ⟨id', f', rfl, -, -⟩
      · exact hk.owing row id f hold (hsame ▸ hf)
      · rw [show s.owing = none from hallowed] at hold
        cases hold
    · obtain ⟨-, settlementId, f', hfound, hid, -⟩ := hallowed
      have hsame : s.found = some (id, f) := by
        rcases next_found (s := s) (r := w.reply (.updateSettlement id' .paid receiptUrl) o) with
          hsame | ⟨id', f', hi, -, -⟩
        · exact hsame ▸ hf
        · cases hi
      obtain ⟨rfl, rfl⟩ := Prod.mk.inj (Option.some.inj (hfound.symm.trans hsame))
      obtain ⟨hrow, hbacked⟩ := hk.found settlementId f' hfound
      refine updated_row h (eq_of_heq hreply) ?_ hbacked
      rcases hid with rfl | rfl
      · exact hrow.symm
      · rfl

/-! ### Runs -/

/-- The requests of the store are covered, as far as they take effect. -/
def CoveredEvent (user : User) (wallet : String) (c : Race) : RaceEvent → Prop
  | .advance j o => ∀ s i, stages c j = some s → pending c j = some i →
      CoveredCall user wallet c.world s i o
  | _ => True

/-- The store's claims are sound, and the calls know what they have read. -/
structure Kept (user : User) (wallet : String) (w : World) (st : ℕ → Option Stage) : Prop where
  sound : Sound user wallet w
  knows : ∀ j s, st j = some s → Knows w s

theorem Kept.update (h : Kept user wallet w st) (hstep : Sound user wallet w' ∧ Grows w w')
    {t : Option Stage} (ht : ∀ s, t = some s → Knows w' s) :
    Kept user wallet w' (Function.update st j t) := by
  refine ⟨hstep.1, fun k s hk => ?_⟩
  by_cases hkj : k = j
  · rw [hkj, Function.update_self] at hk
    exact ht s hk
  · rw [Function.update_of_ne hkj] at hk
    exact (h.knows k s hk).grows hstep.2

theorem knows_first : Knows w .first :=
  ⟨fun h => absurd rfl h, fun rows h => (by cases h), fun id p h => (by cases h),
    fun rows h => (by cases h), fun id f h => (by cases h), fun row id f h => (by cases h)⟩

theorem run_kept {es : List RaceEvent} {c : Race} (hopening : Sound user wallet w)
    (hcovered : Along (system svc).step (CoveredEvent user wallet) (quiescent w) es)
    (hrun : run (system svc).step (quiescent w) es = some c) :
    Kept user wallet c.world (stages c) := by
  refine run_stages (S := system svc) (I := Kept user wallet)
    (fun caller => follows_program svc caller) ?_ ?_ ?_ ?_ ?_ ?_ hcovered hrun
  · intro w st j h _
    refine h.update ⟨h.sound, .refl w⟩ fun s hs => ?_
    cases hs
    exact knows_first
  · intro c j o s i h hj hi hallowed hC
    have hk := h.knows j s hj
    have hstep := after_sound h.sound hk hallowed (hC s i hj hi)
    refine h.update hstep fun t ht => ?_
    cases ht
    exact knows_next h.sound.filed hstep.2 hstep.1.filed hk hallowed
  · intro c j h _
    exact h.update ⟨h.sound, .refl c.world⟩ fun s hs => by cases hs
  · intro c d w h _ hw
    have hstep := outside_sound h.sound hw
    exact ⟨hstep.1, fun j s hj => (h.knows j s hj).grows hstep.2⟩
  · exact fun j t ht => by cases ht
  · exact ⟨hopening, fun j s hj => by cases hj⟩

/-- In every run of covered requests, the settlements of a store that are PENDING, approved or PAID
come to no more than its wallet ever received. -/
theorem claims_within_received {es : List RaceEvent} {c : Race} (hopening : Sound user wallet w)
    (hcovered : Along (system svc).step (CoveredEvent user wallet) (quiescent w) es)
    (hrun : run (system svc).step (quiescent w) es = some c) :
    ∀ store ∈ c.world.stores, store.userId = user.id →
      ((c.world.settlements.filter fun row => row.storeId == store.id && live row).map
        SettlementRequest.tokenAmount).sum ≤ c.world.received wallet / 10 ^ 7 := by
  intro store hstore howner
  have hsound := (run_kept hopening hcovered hrun).sound
  refine le_trans (sum_filter_le (fun row hrow => (hsound.filed.cents row hrow).nonneg)
    fun row _ hrow => ?_) hsound.claimed
  obtain ⟨hid, hlive⟩ := Bool.and_eq_true_iff.mp hrow
  rw [beq_iff_eq.mp hid, hsound.filed.stores store hstore, howner, hlive]
  simp

/-! ### Runs of one store -/

/-- `Covering` as a test. -/
def covering (user : User) (wallet : String) (w : World) (s : Stage) (amount : ℚ) : Bool :=
  match s.reading.shown, s.retained with
  | some cents, some rows =>
    decide (0 < cents ∧ (cents : ℚ) / 100 < 2 ^ 40 ∧ (cents : ℚ) / 100 ≤ w.chain wallet / 10 ^ 7 +
      total w user.id (fun row => row.applied && retainedIn rows row)) &&
    (w.settlements.all fun row => !(ownerOf w row.storeId == some user.id && live row) ||
      row.applied || retainedIn rows row) &&
    (storedAmount amount).all fun stored => decide (stored < 2 ^ 22)
  | _, _ => false

theorem covering_of_test {amount : ℚ} (h : covering user wallet w s amount = true) :
    Covering user wallet w s amount := by
  unfold covering at h
  split at h
  · rename_i cents rows hshown hretained
    rw [Bool.and_eq_true, Bool.and_eq_true] at h
    obtain ⟨⟨hbalance, hlive⟩, hsmall⟩ := h
    obtain ⟨hpos, hcents, hthere⟩ := of_decide_eq_true hbalance
    refine ⟨cents, rows, hshown, hretained, hpos, hcents, hthere,
      fun row hrow howner hrowlive => ?_, fun stored hstored => ?_⟩
    · have hcover := List.all_eq_true.mp hlive row hrow
      rw [howner, hrowlive] at hcover
      simpa using hcover
    · rw [hstored] at hsmall
      exact of_decide_eq_true hsmall
  · cases h

/-- `CoveredEvent` as a test. -/
def covered (user : User) (wallet : String) (c : Race) : RaceEvent → Bool
  | .advance j o =>
    match stages c j, pending c j with
    | some s, some (.createSettlement storeId amount) => !o.delivery.applied ||
      ownerOf c.world storeId != some user.id || covering user wallet c.world s amount
    | some _, some (.updateSettlement id status _) => !o.delivery.applied || status == .rejected ||
      (c.world.findSettlement id).all fun row =>
        ownerOf c.world row.storeId != some user.id || row.status != .rejected
    | _, _ => true
  | _ => true

theorem covered_of_test {c : Race} {e : RaceEvent} (h : covered user wallet c e = true) :
    CoveredEvent user wallet c e := by
  cases e with
  | advance j o =>
    intro s i hj hi
    simp only [covered, hj, hi] at h
    cases i with
    | createSettlement storeId amount =>
      intro happlied howner
      simp only [happlied, howner, Bool.not_true, bne_self_eq_false, Bool.false_or] at h
      exact covering_of_test h
    | updateSettlement id status receiptUrl =>
      rintro happlied ⟨hstatus, row, hrow, howner, hrejected⟩
      simp [happlied, hstatus, hrow, howner, hrejected] at h
    | _ => trivial
  | _ => trivial

theorem sixty_lt : 60 < 2 ^ 53 := by decide

theorem sixty_text : ∃ n : ℕ, (Double.ofNat 60 sixty_lt).toDecimal.value = n / 100 :=
  ⟨6000, by decide +kernel⟩

theorem sixty_least : 50 ≤ (Double.ofNat 60 sixty_lt).val := by decide +kernel

def sixty : CreateSettlementRequestDto := ⟨.ofNat 60 sixty_lt, none, sixty_text, sixty_least⟩

/-- The store asks for sixty tokens in so many calls, and the node answers its balance. -/
def request (j : ℕ) (balanceStroops : ℕ) (id : String) (calls : ℕ) : List RaceEvent :=
  .start j (.requestSettlement "store-user" sixty) ::
    List.replicate calls (.advance j ⟨.done, some balanceStroops, BalanceReports.noRate, id⟩)

def approval (j : ℕ) : RaceEvent :=
  .start j (.updateSettlementStatus "settlement" ⟨.approvedPendingPayment, none⟩)

/-- The store has received so many stroops, of which some are left on the chain. -/
def storeWorld (redemptions : List RedemptionTransaction) (settlements : List SettlementRequest)
    (received left : ℕ) : World :=
  { sampleWorld redemptions settlements 0 with
    chain := fun a => if a = "store-wallet" then left else 0
    received := fun a => if a = "store-wallet" then received else 0 }

theorem storeWorld_sound {redemptions : List RedemptionTransaction}
    {settlements : List SettlementRequest} {received left : ℕ}
    (hkeys : (settlements.map SettlementRequest.id).Nodup)
    (hrows : ∀ row ∈ settlements, row.storeId = "store" ∧ row.tokenAmount = 60)
    (hspends : ∀ row ∈ redemptions, 0 ≤ row.tokenAmount)
    (hsettled : total (storeWorld redemptions settlements received left) "store-user"
      SettlementRequest.applied ≤ (received - left) / 10 ^ 7)
    (hclaimed : total (storeWorld redemptions settlements received left) "store-user" live ≤
      received / 10 ^ 7) :
    Sound storeUser "store-wallet" (storeWorld redemptions settlements received left) := by
  refine ⟨⟨fun store hstore => ?_, fun row hrow => ⟨"store-user", ?_⟩, hkeys, fun row hrow => ?_,
    hspends, fun id u source target amount hjob => ?_⟩, rfl, rfl, fun row hrow _ => ?_, hsettled,
    hclaimed⟩
  · obtain rfl := List.mem_singleton.mp hstore
    rfl
  · rw [(hrows row hrow).1]
    rfl
  · exact ⟨6000, by rw [(hrows row hrow).2]; norm_num⟩
  · cases hjob
  · rw [(hrows row hrow).2]
    norm_num

/-- Sixty of a hundred tokens are requested, paid and moved; a second request is refused. -/
def paidOnce : List RaceEvent :=
  request 0 (10 ^ 9) "settlement" 6 ++ payment 1 :: answered 1 4 ++
    .outside (.transfer 0) :: request 2 (4 * 10 ^ 8) "second" 5

theorem claims_within_received_paidOnce : ∃ c,
    run (system BalanceReports.sampleService).step (quiescent (storeWorld [] [] (10 ^ 9) (10 ^ 9)))
        paidOnce = some c ∧
      ∀ store ∈ c.world.stores, store.userId = storeUser.id →
        ((c.world.settlements.filter fun row => row.storeId == store.id && live row).map
          SettlementRequest.tokenAmount).sum ≤ c.world.received "store-wallet" / 10 ^ 7 := by
  obtain ⟨c, hc⟩ :=
    Option.isSome_iff_exists.mp (show (run (system BalanceReports.sampleService).step
    (quiescent (storeWorld [] [] (10 ^ 9) (10 ^ 9))) paidOnce).isSome = true by decide +kernel)
  have hsound : Sound storeUser "store-wallet" (storeWorld [] [] (10 ^ 9) (10 ^ 9)) :=
    storeWorld_sound List.nodup_nil (fun row h => by cases h) (fun row h => by cases h)
      (by decide +kernel) (by decide +kernel)
  refine ⟨c, hc, claims_within_received hsound ?_ hc⟩
  exact along_mono (fun _ _ h => covered_of_test h) (by decide +kernel)

def sixtyPaid : SettlementRequest := ⟨"settlement", "store", 60, 60, .paid, some "receipt", true⟩

/-- An approved request is not counted with the PENDING ones; and where a paid one has emptied the
wallet, the estimate from the tables does not know of it. -/
theorem claims_exceed_received :
    Sound storeUser "store-wallet" (storeWorld [] [] (10 ^ 9) (10 ^ 9)) ∧
    (∃ c, run (system BalanceReports.sampleService).step
        (quiescent (storeWorld [] [] (10 ^ 9) (10 ^ 9)))
        (request 0 (10 ^ 9) "settlement" 6 ++ approval 1 :: answered 1 3 ++
          request 2 (10 ^ 9) "second" 6) = some c ∧
      (c.world.received "store-wallet" : ℚ) / 10 ^ 7 <
        ((c.world.settlements.filter fun row => row.storeId == "store" && live row).map
          SettlementRequest.tokenAmount).sum) ∧
    Sound storeUser "store-wallet" (storeWorld [⟨"store", some "household", 60, "qr", .completed,
      true⟩] [sixtyPaid] (6 * 10 ^ 8) 0) ∧
    ∃ c, run (system BalanceReports.sampleService).step
        (quiescent (storeWorld [⟨"store", some "household", 60, "qr", .completed, true⟩] [sixtyPaid]
          (6 * 10 ^ 8) 0)) (request 0 0 "second" 11) = some c ∧
      (c.world.received "store-wallet" : ℚ) / 10 ^ 7 <
        ((c.world.settlements.filter fun row => row.storeId == "store" && live row).map
          SettlementRequest.tokenAmount).sum := by
  refine ⟨?_, ?_, ?_, ?_⟩
  · exact storeWorld_sound List.nodup_nil (fun row h => by cases h) (fun row h => by cases h)
      (by decide +kernel) (by decide +kernel)
  · have hsum : (run (system BalanceReports.sampleService).step
        (quiescent (storeWorld [] [] (10 ^ 9) (10 ^ 9)))
        (request 0 (10 ^ 9) "settlement" 6 ++ approval 1 :: answered 1 3 ++
          request 2 (10 ^ 9) "second" 6)).map (fun c => decide
            ((c.world.received "store-wallet" : ℚ) / 10 ^ 7 <
              ((c.world.settlements.filter fun row => row.storeId == "store" && live row).map
                SettlementRequest.tokenAmount).sum)) = some true := by decide +kernel
    obtain ⟨c, hc, htrue⟩ := Option.map_eq_some_iff.mp hsum
    exact ⟨c, hc, of_decide_eq_true htrue⟩
  · refine storeWorld_sound (by decide) (fun row h => ?_) (fun row h => ?_) (by decide +kernel)
      (by decide +kernel)
    · obtain rfl := List.mem_singleton.mp h
      exact ⟨rfl, rfl⟩
    · obtain rfl := List.mem_singleton.mp h
      norm_num
  · have hsum : (run (system BalanceReports.sampleService).step
        (quiescent (storeWorld [⟨"store", some "household", 60, "qr", .completed, true⟩] [sixtyPaid]
          (6 * 10 ^ 8) 0)) (request 0 0 "second" 11)).map (fun c => decide
            ((c.world.received "store-wallet" : ℚ) / 10 ^ 7 <
              ((c.world.settlements.filter fun row => row.storeId == "store" && live row).map
                SettlementRequest.tokenAmount).sum)) = some true := by decide +kernel
    obtain ⟨c, hc, htrue⟩ := Option.map_eq_some_iff.mp hsum
    exact ⟨c, hc, of_decide_eq_true htrue⟩

end Livora.CashOuts
