import Livora.ProgramPools
import Livora.SettlementStages

/-! Requests, payments and rejections of settlements against one database, one queue and
one chain, in any order of their calls. An update goes by the status that was read
before it and is not held back by another one in between; the statuses follow their
machine, and a paid settlement has its one transfer, along every run in which each
status is written while it is still the one read and no payment is cut off. -/

namespace Livora.SettlementRaces

open TransitionRuns EffectPrograms ProgramPools ProgramPools.System StoreBooks
open SettlementStages StoreSettlements
open BackOffice (JobData User)
open PinVerification (truthy Delivery)

inductive Outside where
  /-- The redemptions and the other tables change; no amount is negative. -/
  | amend (redemptions : List RedemptionTransaction) (books : Books)
  | credit (wallet : String) (amount : ℕ)
  | debit (wallet : String) (amount : ℕ)
  /-- A worker carries out the `n`-th job, for the first time or again. -/
  | transfer (n : ℕ)

structure Payout where
  settlementId : String
  source : String
  target : String
  tokenAmount : ℚ

/-- What the `n`-th job moves: the tokens leave the wallet whose key the store's vault holds. -/
def payout (w : World) (n : ℕ) : Option Payout :=
  match w.queue[n]? with
  | some (.settlementTransfer settlementId fromStoreUserId _ toWallet tokenAmount) => do
    let user ← w.findUser fromStoreUserId
    let source ← truthy user.walletAddress
    if stroops tokenAmount ≤ w.chain source then
      some ⟨settlementId, source, toWallet, tokenAmount⟩
    else none
  | _ => none

def outside (w : World) : Outside → Option World
  | .amend redemptions books =>
    if ∀ row ∈ redemptions, 0 ≤ row.tokenAmount then
      some { w with redemptions := redemptions, books := books }
    else none
  | .credit wallet amount => some (w.credit wallet amount)
  | .debit wallet amount => if amount ≤ w.chain wallet then some (w.debit wallet amount) else none
  | .transfer n => (payout w n).map fun p =>
      w.transferSettlement p.settlementId p.source p.target p.tokenAmount

def system (svc : WalletBalance.Service) : System Caller World Outcome Outside Stage Op
    (fun i => Except Failure (Reply i)) (Except Failure SettlementRequest) where
  program caller := (program svc caller).run
  serve := World.serve
  outside := outside
  protocol := protocol
  first := .first

abbrev Race := Pool World
  (Task Stage Op (fun i => Except Failure (Reply i)) (Except Failure SettlementRequest))

abbrev RaceEvent := Event Caller Outcome Outside

def quiescent (w : World) : Race := ⟨w, fun _ => none⟩

/-! ### Statuses and transfers -/

def statusOf (w : World) (settlementId : String) : Option SettlementStatus :=
  (w.findSettlement settlementId).map SettlementRequest.status

def ofSettlement (settlementId : String) : JobData → Bool
  | .settlementTransfer id _ _ _ _ => id == settlementId
  | _ => false

def transfersOf (w : World) (settlementId : String) : List JobData :=
  w.queue.filter (ofSettlement settlementId)

variable {svc : WalletBalance.Service} {w w' : World} {st : ℕ → Option Stage} {j : ℕ} {s : Stage}
  {i : Op} {o : Outcome}

/-- What neither creates nor updates a settlement, nor enqueues a transfer. -/
structure SameDesk (w w' : World) : Prop where
  users : w'.users = w.users
  settlements : w'.settlements = w.settlements
  queue : w'.queue = w.queue
  chain : w'.chain = w.chain
  received : w'.received = w.received

theorem SameDesk.refl (w : World) : SameDesk w w := ⟨rfl, rfl, rfl, rfl, rfl⟩

def Desk : Op → Prop
  | .createSettlement _ _ => True
  | .updateSettlement _ _ _ => True
  | .add _ _ => True
  | _ => False

theorem sameDesk_close (w : World) (tx : ℕ) : SameDesk w (w.close tx) := ⟨rfl, rfl, rfl, rfl, rfl⟩

theorem sameDesk_publish (w : World) (tx : ℕ) : SameDesk w (w.publish tx) := by
  unfold World.publish
  split
  · exact ⟨rfl, rfl, rfl, rfl, rfl⟩
  · exact .refl w

theorem sameDesk_effect (h : ¬ Desk i) : SameDesk w (w.effect o i) := by
  cases i with
  | createRedemption storeId tokenAmount =>
    change SameDesk w (w.createRedemption o.id storeId tokenAmount)
    unfold World.createRedemption
    split
    · split
      · exact .refl w
      · exact ⟨rfl, rfl, rfl, rfl, rfl⟩
    · exact .refl w
  | createStoreProfile userId =>
    change SameDesk w (w.createStoreProfile o.id userId)
    unfold World.createStoreProfile
    split
    · exact .refl w
    · exact ⟨rfl, rfl, rfl, rfl, rfl⟩
  | createSettlement storeId tokenAmount => exact absurd trivial h
  | updateSettlement settlementId status receiptUrl => exact absurd trivial h
  | add data attempts => exact absurd trivial h
  | _ => exact ⟨rfl, rfl, rfl, rfl, rfl⟩

theorem sameDesk_after (h : ¬ Desk i) : SameDesk w (w.after i o) := by
  unfold World.after
  split
  · split
    · refine World.update_elim (.refl w) ?_
      unfold World.lockUser
      split
      · exact ⟨rfl, rfl, rfl, rfl, rfl⟩
      · exact .refl w
    · exact .refl w
  · split
    · refine World.update_elim (.refl w) ?_
      unfold World.lockRedemption
      split
      · exact ⟨rfl, rfl, rfl, rfl, rfl⟩
      · exact .refl w
    · exact .refl w
  · split
    · refine World.update_elim (.refl w) ?_
      unfold World.completeRedemption
      split
      · split
        · exact ⟨rfl, rfl, rfl, rfl, rfl⟩
        · exact .refl w
      · exact .refl w
    · exact .refl w
  · split
    · exact .refl w
    · exact sameDesk_close w _
  · split
    · obtain ⟨husers, hsettlements, hqueue, hchain, hreceived⟩ := sameDesk_publish w _
      exact ⟨husers, hsettlements, hqueue, hchain, hreceived⟩
    · exact sameDesk_close w _
  · exact sameDesk_close w _
  · exact World.update_elim (.refl w) (sameDesk_effect h)

/-! ### What a step does to a status -/

theorem findSettlement_map {f : SettlementRequest → SettlementRequest}
    (hf : ∀ row, (f row).id = row.id) (hw : w'.settlements = w.settlements.map f) (id : String) :
    w'.findSettlement id = (w.findSettlement id).map f := by
  unfold World.findSettlement
  rw [hw, List.find?_map]
  congr 2
  funext row
  simp [hf]

theorem id_setStatus (id : String) (status : SettlementStatus) (receiptUrl : Option String)
    (row : SettlementRequest) : (World.setStatus id status receiptUrl row).id = row.id := by
  unfold World.setStatus
  split <;> rfl

theorem id_of_findSettlement {id : String} {row : SettlementRequest}
    (h : w.findSettlement id = some row) : row.id = id := by
  simpa using List.find?_some h

theorem status_update {id : String} {status : SettlementStatus} {receiptUrl : Option String} :
    statusOf (w.updateSettlement id status receiptUrl) id =
      (statusOf w id).map fun _ => status := by
  unfold statusOf
  rw [findSettlement_map (id_setStatus id status receiptUrl) rfl]
  cases h : w.findSettlement id with
  | none => rfl
  | some row => simp [World.setStatus, id_of_findSettlement h]

theorem status_update_of_ne {id x : String} {status : SettlementStatus}
    {receiptUrl : Option String} (hx : x ≠ id) :
    statusOf (w.updateSettlement id status receiptUrl) x = statusOf w x := by
  unfold statusOf
  rw [findSettlement_map (id_setStatus id status receiptUrl) rfl]
  cases h : w.findSettlement x with
  | none => rfl
  | some row => simp [World.setStatus, id_of_findSettlement h, hx]

theorem status_create {settlementId storeId : String} {tokenAmount : ℚ} {x : String} :
    statusOf (w.createSettlement settlementId storeId tokenAmount) x = statusOf w x ∨
      (statusOf w x = none ∧
        statusOf (w.createSettlement settlementId storeId tokenAmount) x = some .pending) := by
  unfold World.createSettlement
  split
  · rename_i stored hstored
    split
    · exact .inl rfl
    · rename_i hnew
      unfold statusOf World.findSettlement
      rw [List.find?_append]
      cases h : w.settlements.find? (fun row => row.id == x) with
      | some row => exact .inl (by simp)
      | none =>
        by_cases hx : settlementId = x
        · exact .inr ⟨rfl, by simp [hx]⟩
        · exact .inl (by simp [hx])
  · exact .inl rfl

theorem status_congr (h : w'.settlements = w.settlements) (id : String) :
    statusOf w' id = statusOf w id := by
  unfold statusOf World.findSettlement
  rw [h]

theorem status_transfer {settlementId source target : String} {tokenAmount : ℚ} (id : String) :
    statusOf (w.transferSettlement settlementId source target tokenAmount) id = statusOf w id := by
  have hmark (row : SettlementRequest) :
      (World.markSettled settlementId row).id = row.id ∧
        (World.markSettled settlementId row).status = row.status := by
    unfold World.markSettled
    split <;> exact ⟨rfl, rfl⟩
  unfold statusOf
  rw [findSettlement_map (fun row => (hmark row).1) rfl, Option.map_map]
  congr 1
  funext row
  exact (hmark row).2

theorem outside_cases {d : Outside} (hw : outside w d = some w') :
    (∃ redemptions books, (∀ row ∈ redemptions, 0 ≤ row.tokenAmount) ∧
      w' = { w with redemptions := redemptions, books := books }) ∨
    (∃ wallet amount, w' = w.credit wallet amount) ∨
    (∃ wallet amount, amount ≤ w.chain wallet ∧ w' = w.debit wallet amount) ∨
    ∃ n p, payout w n = some p ∧
      w' = w.transferSettlement p.settlementId p.source p.target p.tokenAmount := by
  cases d with
  | amend redemptions books =>
    simp only [outside] at hw
    split at hw
    · cases hw
      exact .inl ⟨redemptions, books, ‹_›, rfl⟩
    · cases hw
  | credit wallet amount =>
    cases hw
    exact .inr (.inl ⟨wallet, amount, rfl⟩)
  | debit wallet amount =>
    simp only [outside] at hw
    split at hw
    · cases hw
      exact .inr (.inr (.inl ⟨wallet, amount, ‹_›, rfl⟩))
    · cases hw
  | transfer n =>
    obtain ⟨p, hp, rfl⟩ := Option.map_eq_some_iff.mp hw
    exact .inr (.inr (.inr ⟨n, p, hp, rfl⟩))

theorem status_outside {d : Outside} (hw : outside w d = some w') (id : String) :
    statusOf w' id = statusOf w id := by
  obtain ⟨rs, books, -, rfl⟩ | ⟨a, n, rfl⟩ | ⟨a, n, -, rfl⟩ | ⟨n, p, -, rfl⟩ := outside_cases hw
  · rfl
  · rfl
  · rfl
  · exact status_transfer id

theorem queue_outside {d : Outside} (hw : outside w d = some w') : w'.queue = w.queue := by
  obtain ⟨rs, books, -, rfl⟩ | ⟨a, n, rfl⟩ | ⟨a, n, -, rfl⟩ | ⟨n, p, -, rfl⟩ := outside_cases hw
  all_goals rfl

/-! ### Writes that are not late -/

/-- A status is written while it is the one read, and a payment is not cut off: its answer arrives,
and its event and its job are taken. -/
def FreshCall (w : World) (s : Stage) (i : Op) (o : Outcome) : Prop :=
  match i with
  | .updateSettlement settlementId status _ => o.delivery.applied = true →
      (∀ id f, s.found = some (id, f) → statusOf w settlementId = some f.row.status) ∧
        (status = .paid → o.delivery = .done)
  | .emit _ _ => s.owing ≠ none → o.delivery = .done
  | .add _ _ => o.delivery.applied = true
  | _ => True

def Fresh (c : Race) : RaceEvent → Prop
  | .advance j o => ∀ s i, stages c j = some s → pending c j = some i → FreshCall c.world s i o
  | .stop j => ∀ s, stages c j = some s → s.owing = none
  | _ => True

/-- A settlement has its transfer when it is PAID, or a call that has yet to enqueue it. -/
structure Orderly (w : World) (debts : ℕ → Option SettlementRequest) : Prop where
  single : ∀ id, (transfersOf w id).length ≤ 1
  enqueued : ∀ id, transfersOf w id ≠ [] → statusOf w id = some .paid
  paid : ∀ id, statusOf w id = some .paid →
    transfersOf w id ≠ [] ∨ ∃ j row, debts j = some row ∧ row.id = id
  owing : ∀ j row, debts j = some row →
    statusOf w row.id = some .paid ∧ transfersOf w row.id = []
  alone : ∀ j k row row', debts j = some row → debts k = some row' → row.id = row'.id → j = k

section Debts

variable {debts : ℕ → Option SettlementRequest}

theorem transfersOf_congr (h : w'.queue = w.queue) (id : String) :
    transfersOf w' id = transfersOf w id := by
  unfold transfersOf
  rw [h]

theorem Orderly.keep (h : Orderly w debts) (hqueue : w'.queue = w.queue)
    (hpaid : ∀ id, statusOf w' id = some .paid ↔ statusOf w id = some .paid) :
    Orderly w' debts := by
  have htransfers := transfersOf_congr hqueue
  constructor
  · intro id
    rw [htransfers]
    exact h.single id
  · intro id hid
    rw [htransfers] at hid
    exact (hpaid id).mpr (h.enqueued id hid)
  · intro id hid
    rw [htransfers]
    exact h.paid id ((hpaid id).mp hid)
  · intro j row hj
    rw [htransfers]
    exact (h.owing j row hj).imp_left (hpaid _).mpr
  · exact h.alone

theorem Orderly.unpaid (h : Orderly w debts) {id : String} (hid : statusOf w id ≠ some .paid) :
    transfersOf w id = [] ∧ ∀ j row, debts j = some row → row.id ≠ id := by
  constructor
  · by_contra hne
    exact hid (h.enqueued id hne)
  · rintro j row hj rfl
    exact hid (h.owing j row hj).1

theorem Orderly.incur (h : Orderly w debts) {row : SettlementRequest} {receiptUrl : Option String}
    {status : SettlementStatus} (hj : debts j = none) (hold : statusOf w row.id = some status)
    (hstatus : status ≠ .paid) : Orderly (w.updateSettlement row.id .paid receiptUrl)
      (Function.update debts j (some row)) := by
  have hunpaid : statusOf w row.id ≠ some .paid := fun hp =>
    hstatus (Option.some.inj (hold.symm.trans hp))
  obtain ⟨hnone, hfree⟩ := h.unpaid hunpaid
  have hnew : statusOf (w.updateSettlement row.id .paid receiptUrl) row.id = some .paid := by
    rw [status_update, hold]
    rfl
  have hother {k : ℕ} {r : SettlementRequest}
      (hk : Function.update debts j (some row) k = some r) :
      (k = j ∧ r = row) ∨ debts k = some r := by
    by_cases hkj : k = j
    · subst hkj
      rw [Function.update_self] at hk
      exact .inl ⟨rfl, (Option.some.inj hk).symm⟩
    · rw [Function.update_of_ne hkj] at hk
      exact .inr hk
  constructor
  · exact h.single
  · intro id hid
    by_cases hne : id = row.id
    · rw [hne]
      exact hnew
    · rw [status_update_of_ne hne]
      exact h.enqueued id hid
  · intro id hid
    by_cases hne : id = row.id
    · exact .inr ⟨j, row, Function.update_self .., hne.symm⟩
    · rw [status_update_of_ne hne] at hid
      refine (h.paid id hid).imp_right fun ⟨k, r, hk, hr⟩ => ⟨k, r, ?_, hr⟩
      rw [Function.update_of_ne (fun he => by rw [he, hj] at hk; cases hk)]
      exact hk
  · intro k r hk
    rcases hother hk with ⟨-, rfl⟩ | hk
    · exact ⟨hnew, hnone⟩
    · rw [status_update_of_ne (hfree k r hk)]
      exact h.owing k r hk
  · intro k k' r r' hk hk' he
    rcases hother hk with ⟨hkj, hr⟩ | hold
    · rcases hother hk' with ⟨hkj', -⟩ | hold'
      · rw [hkj, hkj']
      · exact absurd (hr ▸ he.symm) (hfree k' r' hold')
    · rcases hother hk' with ⟨-, hr'⟩ | hold'
      · exact absurd (hr' ▸ he) (hfree k r hold)
      · exact h.alone k k' r r' hold hold' he

theorem Orderly.discharge (h : Orderly w debts) {row : SettlementRequest} {data : JobData}
    (hj : debts j = some row) (hdata : ∀ id, ofSettlement id data = (row.id == id)) :
    Orderly { w with queue := w.queue ++ [data] } (Function.update debts j none) := by
  obtain ⟨hpaid, hnone⟩ := h.owing j row hj
  have hself : transfersOf { w with queue := w.queue ++ [data] } row.id = [data] := by
    change (w.queue ++ [data]).filter (ofSettlement row.id) = [data]
    rw [List.filter_append, show w.queue.filter (ofSettlement row.id) = [] from hnone,
      List.filter_cons_of_pos (by rw [hdata, beq_self_eq_true]), List.filter_nil, List.nil_append]
  have hothers {id : String} (hid : row.id ≠ id) :
      transfersOf { w with queue := w.queue ++ [data] } id = transfersOf w id := by
    change (w.queue ++ [data]).filter (ofSettlement id) = _
    rw [List.filter_append, List.filter_cons_of_neg (by simpa [hdata] using hid), List.filter_nil,
      List.append_nil]
    rfl
  have hkeep {k : ℕ} {r : SettlementRequest} (hk : Function.update debts j none k = some r) :
      debts k = some r ∧ row.id ≠ r.id := by
    have hkj : k ≠ j := by
      rintro rfl
      rw [Function.update_self] at hk
      cases hk
    rw [Function.update_of_ne hkj] at hk
    exact ⟨hk, fun he => hkj (h.alone k j r row hk hj he.symm)⟩
  constructor
  · intro id
    by_cases hid : row.id = id
    · rw [← hid, hself]
      exact le_rfl
    · rw [hothers hid]
      exact h.single id
  · intro id hne
    by_cases hid : row.id = id
    · rw [← hid]
      exact hpaid
    · rw [hothers hid] at hne
      exact h.enqueued id hne
  · intro id hstatus
    by_cases hid : row.id = id
    · refine .inl ?_
      rw [← hid, hself]
      exact List.cons_ne_nil _ _
    · rw [hothers hid]
      refine (h.paid id hstatus).imp_right fun ⟨k, r, hk, hr⟩ => ⟨k, r, ?_, hr⟩
      rw [Function.update_of_ne]
      · exact hk
      · rintro rfl
        rw [hj] at hk
        cases hk
        exact hid hr
  · intro k r hk
    obtain ⟨hk, hne⟩ := hkeep hk
    rw [hothers hne]
    exact h.owing k r hk
  · intro k k' r r' hk hk'
    exact h.alone k k' r r' (hkeep hk).1 (hkeep hk').1

end Debts

/-! ### Calls -/

def owed (st : ℕ → Option Stage) (j : ℕ) : Option SettlementRequest := (st j).bind Stage.owing

theorem owed_update {t : Option Stage} :
    owed (Function.update st j t) = Function.update (owed st) j (t.bind Stage.owing) := by
  funext k
  by_cases hk : k = j
  · subst hk
    simp [owed]
  · simp [owed, hk]

theorem owed_keep (hj : st j = some s) {t : Stage} (h : t.owing = s.owing) :
    owed (Function.update st j (some t)) = owed st := by
  rw [owed_update, Function.update_eq_self_iff, owed, hj]
  exact h

structure Kept (w : World) (st : ℕ → Option Stage) : Prop where
  orderly : Orderly w (owed st)
  found : ∀ j s id f, st j = some s → s.found = some (id, f) → f.row.id = id

theorem next_found {r : Except Failure (Reply i)} :
    (next s i r).found = s.found ∨ ∃ id f, i = .findSettlement id ∧
      (next s i r).found = some (id, f) ∧
      HEq r (Except.ok (ε := Failure) (some f)) := by
  unfold next
  split
  case h_4 => exact .inr ⟨_, _, rfl, rfl, .rfl⟩
  all_goals exact .inl rfl

theorem found_next {id : String} {f : FoundSettlement}
    (h : ∀ id f, s.found = some (id, f) → f.row.id = id)
    (hnext : (next s i (w.reply i o)).found = some (id, f)) : f.row.id = id := by
  rcases next_found (s := s) (r := w.reply i o) with hsame | ⟨id', f', rfl, hfound, hreply⟩
  · exact h id f (hsame ▸ hnext)
  · obtain ⟨rfl, rfl⟩ := Prod.mk.inj (Option.some.inj (hfound.symm.trans hnext))
    obtain ⟨-, hread⟩ := Delivery.answer_ok (eq_of_heq hreply)
    obtain ⟨row, hrow, hread⟩ := Option.bind_eq_some_iff.mp hread
    obtain ⟨store, -, hread⟩ := Option.bind_eq_some_iff.mp hread
    cases hread
    exact id_of_findSettlement hrow

theorem after_update {id : String} {status : SettlementStatus} {receiptUrl : Option String} :
    w.after (.updateSettlement id status receiptUrl) o =
      if o.delivery.applied then w.updateSettlement id status receiptUrl else w := rfl

theorem owing_update {id : String} {status : SettlementStatus} {receiptUrl : Option String}
    {r : Except Failure SettlementRequest} (h : status ≠ .paid ∨ ∃ e, r = .error e) :
    (next s (.updateSettlement id status receiptUrl) r).owing = s.owing := by
  rcases h with h | ⟨e, rfl⟩
  · cases status with
    | paid => exact absurd rfl h
    | _ => rfl
  · cases status <;> rfl

theorem not_paid_of_transition {status status' : SettlementStatus}
    (h : transition status status' = true) : status ≠ .paid := by
  rintro rfl
  cases h

theorem update_orderly (h : Kept w st) (hj : st j = some s) {id : String}
    {status : SettlementStatus} {receiptUrl : Option String}
    (hallowed : Allowed s (.updateSettlement id status receiptUrl))
    (hfresh : FreshCall w s (.updateSettlement id status receiptUrl) o) :
    Orderly (w.after (.updateSettlement id status receiptUrl) o)
      (owed (Function.update st j (some (next s (.updateSettlement id status receiptUrl)
        (w.reply (.updateSettlement id status receiptUrl) o))))) := by
  obtain ⟨howing, settlementId, f, hfound, -, htransition⟩ := hallowed
  rw [after_update]
  by_cases happlied : o.delivery.applied = true
  swap
  · have herror : ∃ e, w.reply (.updateSettlement id status receiptUrl) o = .error e := by
      cases hreply : w.reply (.updateSettlement id status receiptUrl) o with
      | error e => exact ⟨e, rfl⟩
      | ok row =>
        obtain ⟨hdone, -⟩ := World.reply_updateSettlement hreply
        exact absurd (by rw [hdone]; rfl) happlied
    rw [if_neg happlied, owed_keep hj (owing_update (.inr herror))]
    exact h.orderly
  rw [if_pos happlied]
  obtain ⟨hread, hdone⟩ := hfresh happlied
  have hold := hread settlementId f hfound
  have hunpaid := not_paid_of_transition htransition
  by_cases hpaid : status = .paid
  · subst hpaid
    obtain ⟨old, hfind, -⟩ := Option.map_eq_some_iff.mp hold
    have hreply : w.reply (.updateSettlement id .paid receiptUrl) o =
        .ok (World.setStatus id .paid receiptUrl old) := by
      exact World.reply_of_found hfind (hdone rfl)
    have hid : (World.setStatus id .paid receiptUrl old).id = id :=
      (id_setStatus _ _ _ _).trans (id_of_findSettlement hfind)
    have hfree : owed st j = none := by
      rw [owed, hj]
      exact howing
    have hincur :=
      @Orderly.incur _ _ _ h.orderly (World.setStatus id .paid receiptUrl old) receiptUrl
      _ hfree (hid.symm ▸ hold) hunpaid
    rw [hid] at hincur
    rw [hreply, owed_update]
    exact hincur
  · rw [owed_keep hj (owing_update (.inl hpaid))]
    refine h.orderly.keep rfl fun x => ?_
    by_cases hx : x = id
    · rw [hx, status_update, hold]
      constructor
      · intro he
        exact absurd (Option.some.inj he) hpaid
      · intro he
        exact absurd (Option.some.inj he) hunpaid
    · rw [status_update_of_ne hx]

theorem call_kept (h : Kept w st) (hj : st j = some s) (hallowed : Allowed s i)
    (hfresh : FreshCall w s i o) :
    Kept (w.after i o) (Function.update st j (some (next s i (w.reply i o)))) := by
  constructor
  swap
  · intro k t id f hk ht
    by_cases hkj : k = j
    · subst hkj
      rw [Function.update_self] at hk
      cases hk
      exact found_next (h.found k s · · hj) ht
    · rw [Function.update_of_ne hkj] at hk
      exact h.found k t id f hk ht
  by_cases hdesk : Desk i
  swap
  · have hsame : SameDesk w (w.after i o) := sameDesk_after hdesk
    have howing : (next s i (w.reply i o)).owing = s.owing := by
      cases i with
      | emit userId event =>
        cases hreply : w.reply (.emit userId event) o with
        | ok u => rfl
        | error e =>
          by_contra hne
          have hdone : o.delivery = .done := hfresh fun hnone => hne hnone.symm
          rw [show w.reply (.emit userId event) o = o.delivery.answer Failure.outside () from rfl,
            hdone] at hreply
          cases hreply
      | createSettlement storeId amount => exact absurd trivial hdesk
      | updateSettlement id status receiptUrl => exact absurd trivial hdesk
      | add data attempts => exact absurd trivial hdesk
      | findOwnProfile userId =>
        rcases w.reply (.findOwnProfile userId) o with e | ⟨_ | profile⟩ <;> rfl
      | createStoreProfile userId => cases w.reply (.createStoreProfile userId) o <;> rfl
      | pendingSettlements storeId => cases w.reply (.pendingSettlements storeId) o <;> rfl
      | findSettlement id =>
        rcases w.reply (.findSettlement id) o with e | ⟨_ | f⟩ <;> rfl
      | _ => rfl
    rw [owed_keep hj howing]
    exact h.orderly.keep hsame.queue fun id => by rw [status_congr hsame.settlements]
  cases i with
  | updateSettlement id status receiptUrl => exact update_orderly h hj hallowed hfresh
  | add data attempts =>
    obtain ⟨row, settlementId, f, source, target, howing, hfound, rfl⟩ := hallowed
    have hafter : w.after (.add (.settlementTransfer row.id f.storeUser.id source target
        row.tokenAmount) attempts) o = { w with queue := w.queue ++
          [.settlementTransfer row.id f.storeUser.id source target row.tokenAmount] } := if_pos hfresh
    rw [hafter, owed_update]
    have howed : owed st j = some row := by
      rw [owed, hj]
      exact howing
    exact h.orderly.discharge howed fun id => rfl
  | createSettlement storeId amount =>
    have howing : (next s (.createSettlement storeId amount)
        (w.reply (.createSettlement storeId amount) o)).owing = s.owing := rfl
    have hafter : w.after (.createSettlement storeId amount) o =
        w.update o.delivery fun w => w.createSettlement o.id storeId amount := rfl
    rw [owed_keep hj howing, hafter]
    refine World.update_elim (p := fun w => Orderly w (owed st)) h.orderly ?_
    have hqueue : (w.createSettlement o.id storeId amount).queue = w.queue := by
      unfold World.createSettlement
      split
      · split <;> rfl
      · rfl
    refine h.orderly.keep hqueue fun id => ?_
    rcases @status_create w o.id storeId amount id with hsame | ⟨hnone, hnew⟩
    · rw [hsame]
    · rw [hnone, hnew]
      decide
  | _ => exact False.elim hdesk

/-! ### Runs -/

/-- No status has moved but as the machine allows. -/
def Moves (w w' : World) : Prop :=
  ∀ id status status', statusOf w id = some status → statusOf w' id = some status' →
    status' = status ∨ transition status status' = true

theorem moves_of_status (h : ∀ id, statusOf w' id = statusOf w id) : Moves w w' := by
  intro id status status' hold hnew
  rw [h, hold] at hnew
  exact .inl (Option.some.inj hnew).symm

theorem moves_after (hallowed : Allowed s i) (hfresh : FreshCall w s i o) :
    Moves w (w.after i o) := by
  by_cases hdesk : Desk i
  swap
  · exact moves_of_status (status_congr (sameDesk_after hdesk).settlements)
  cases i with
  | updateSettlement id status receiptUrl =>
    obtain ⟨-, settlementId, f, hfound, -, htransition⟩ := hallowed
    rw [after_update]
    split
    · have hold := (hfresh ‹_›).1 settlementId f hfound
      intro x before after hbefore hafter
      by_cases hx : x = id
      · subst hx
        rw [hold] at hbefore
        rw [status_update, hold] at hafter
        cases hbefore
        cases hafter
        exact .inr htransition
      · rw [status_update_of_ne hx, hbefore] at hafter
        exact .inl (Option.some.inj hafter).symm
    · exact moves_of_status fun _ => rfl
  | createSettlement storeId amount =>
    have hafter : w.after (.createSettlement storeId amount) o =
        w.update o.delivery fun w => w.createSettlement o.id storeId amount := rfl
    rw [hafter]
    refine World.update_elim (p := fun v => Moves w v) (moves_of_status fun _ => rfl) ?_
    intro x before after hbefore hafter
    rcases @status_create w o.id storeId amount x with hsame | ⟨hnone, -⟩
    · rw [hsame, hbefore] at hafter
      exact .inl (Option.some.inj hafter).symm
    · rw [hnone] at hbefore
      cases hbefore
  | add data attempts =>
    refine moves_of_status fun x => ?_
    exact World.update_elim (p := fun v => statusOf v x = statusOf w x) rfl rfl
  | _ => exact False.elim hdesk

theorem moves_step {c c' : Race} {e : RaceEvent} (hends : (system svc).Disciplined c)
    (hfresh : Fresh c e) (hstep : (system svc).step c e = some c') : Moves c.world c'.world := by
  cases e with
  | start j caller =>
    obtain ⟨-, rfl⟩ := step_start.mp hstep
    exact moves_of_status fun _ => rfl
  | advance j o =>
    obtain ⟨s, i, k, ht, rfl⟩ := step_advance.mp hstep
    exact moves_after (hends j _ ht).1 (hfresh s i (stages_eq ht) (pending_eq ht))
  | stop j =>
    obtain ⟨-, rfl⟩ := step_stop.mp hstep
    exact moves_of_status fun _ => rfl
  | outside d =>
    obtain ⟨w, hw, rfl⟩ := step_outside.mp hstep
    exact moves_of_status (status_outside hw)

/-- Where a run may begin: the transfers enqueued are those of the settlements that are PAID. -/
def Opening (w : World) : Prop :=
  ∀ id, (transfersOf w id).length = if statusOf w id = some .paid then 1 else 0

theorem orderly_opening (h : Opening w) : Orderly w fun _ => none := by
  constructor
  · intro id
    rw [h id]
    split <;> decide
  · intro id hne
    by_contra hnot
    have hlength := h id
    rw [if_neg hnot] at hlength
    exact hne (List.eq_nil_of_length_eq_zero hlength)
  · intro id hpaid
    have hlength := h id
    rw [if_pos hpaid] at hlength
    refine .inl fun hnil => ?_
    rw [hnil] at hlength
    cases hlength
  · exact fun j row hj => by cases hj
  · exact fun j k row row' hj => by cases hj

theorem run_kept {es : List RaceEvent} {c : Race} (hopening : Opening w)
    (hfresh : Along (system svc).step Fresh (quiescent w) es)
    (hrun : run (system svc).step (quiescent w) es = some c) : Kept c.world (stages c) := by
  refine run_stages (S := system svc) (I := Kept) (fun caller => follows_program svc caller)
    ?_ ?_ ?_ ?_ ?_ ?_ hfresh hrun
  · intro w st j h hj
    have howed : owed (Function.update st j (some Stage.first)) = owed st := by
      rw [owed_update, Function.update_eq_self_iff, owed, hj]
      rfl
    refine ⟨howed ▸ h.orderly, fun k s id f hk hf => ?_⟩
    by_cases hkj : k = j
    · subst hkj
      rw [Function.update_self] at hk
      cases hk
      cases hf
    · rw [Function.update_of_ne hkj] at hk
      exact h.found k s id f hk hf
  · exact fun c j o s i h hj hi hallowed hC => call_kept h hj hallowed (hC s i hj hi)
  · intro c j h hC
    have howed : owed (Function.update (stages c) j none) = owed (stages c) := by
      rw [owed_update, Function.update_eq_self_iff, owed]
      cases hs : stages c j with
      | none => rfl
      | some s => exact (hC s hs).symm
    refine ⟨howed ▸ h.orderly, fun k s id f hk hf => ?_⟩
    by_cases hkj : k = j
    · subst hkj
      rw [Function.update_self] at hk
      cases hk
    · rw [Function.update_of_ne hkj] at hk
      exact h.found k s id f hk hf
  · intro c d w h _ hw
    exact ⟨h.orderly.keep (queue_outside hw) fun id => by rw [status_outside hw], h.found⟩
  · exact fun j t ht => by cases ht
  · exact ⟨orderly_opening hopening, fun j s id f hj => by cases hj⟩

/-- Along every run of fresh writes the statuses follow their machine, and a settlement gets one
transfer at most; where it is PAID, and no call has yet to enqueue it, it has got one. -/
theorem settlements_in_order {es : List RaceEvent} {c : Race} (hopening : Opening w)
    (hfresh : Along (system svc).step Fresh (quiescent w) es)
    (hrun : run (system svc).step (quiescent w) es = some c) :
    Along (system svc).step (fun c e => ∀ c', (system svc).step c e = some c' →
      Moves c.world c'.world) (quiescent w) es ∧
    ∀ id, (transfersOf c.world id).length ≤ 1 ∧
      (statusOf c.world id = some .paid →
        (∀ j s row, active c j = some s → s.owing = some row → row.id ≠ id) →
          (transfersOf c.world id).length = 1) := by
  refine ⟨?_, fun id => ?_⟩
  · refine along_iff.mpr fun p e q t hsplit hprefix c' hstep => ?_
    refine moves_step (run_ends (fun caller => follows_program svc caller) ?_ hprefix)
      (along_iff.mp hfresh p e q t hsplit hprefix) hstep
    exact fun j t ht => by cases ht
  · obtain ⟨horderly, -⟩ := run_kept hopening hfresh hrun
    refine ⟨horderly.single id, fun hpaid hnobody => ?_⟩
    have hends : (system svc).Ends (fun t _ => t.owing = none) c :=
      run_ends (fun caller => clears_program svc caller) (fun j t ht => by cases ht) hrun
    have hsome : transfersOf c.world id ≠ [] := by
      refine (horderly.paid id hpaid).resolve_right ?_
      rintro ⟨j, row, hj, hrow⟩
      unfold owed stages at hj
      rcases ht : c.tasks j with _ | ⟨s, rest⟩
      · rw [ht] at hj
        cases hj
      · rw [ht] at hj
        cases rest with
        | done x =>
          have hnone : s.owing = none := hends j _ ht
          change s.owing = some row at hj
          rw [hnone] at hj
          cases hj
        | call i k => exact hnobody j s row (active_eq ht) hj hrow
    have hsingle := horderly.single id
    have hpos := List.length_pos_of_ne_nil hsome
    omega

/-! ### Runs of one settlement -/

/-- `Fresh` as a test. -/
def fresh (c : Race) : RaceEvent → Bool
  | .advance j o =>
    match stages c j, pending c j with
    | some s, some (.updateSettlement settlementId status _) => !o.delivery.applied ||
      ((s.found.all fun found => statusOf c.world settlementId == some found.2.row.status) &&
        (status != .paid || o.delivery == .done))
    | some s, some (.emit _ _) => s.owing == none || o.delivery == .done
    | some _, some (.add _ _) => o.delivery.applied
    | _, _ => true
  | .stop j => (stages c j).all fun s => s.owing == none
  | _ => true

theorem fresh_of_test {c : Race} {e : RaceEvent} (h : fresh c e = true) : Fresh c e := by
  cases e with
  | advance j o =>
    intro s i hj hi
    simp only [fresh, hj, hi] at h
    cases i with
    | updateSettlement settlementId status receiptUrl =>
      intro happlied
      simp only [happlied, Bool.not_true, Bool.false_or, Bool.and_eq_true] at h
      refine ⟨fun id f hfound => ?_, fun hpaid => ?_⟩
      · rw [hfound] at h
        exact beq_iff_eq.mp h.1
      · simpa [hpaid] using h.2
    | emit userId event =>
      intro howing
      simpa [howing] using h
    | add data attempts => exact h
    | _ => trivial
  | stop j =>
    intro s hj
    simpa [fresh, hj] using h
  | _ => trivial

def answered (j calls : ℕ) : List RaceEvent :=
  List.replicate calls (.advance j ⟨.done, none, BalanceReports.noRate, ""⟩)

def payment (j : ℕ) : RaceEvent := .start j (.paySettlement "settlement" ⟨"receipt"⟩)

def rejection (j : ℕ) : RaceEvent :=
  .start j (.updateSettlementStatus "settlement" ⟨.rejected, none⟩)

def fiftyTokens : SettlementRequest := ⟨"settlement", "store", 50, 50, .pending, none, false⟩

def deskWorld : World := sampleWorld [] [fiftyTokens] 0

theorem deskWorld_opening : Opening deskWorld := by
  intro id
  have hnone : statusOf deskWorld id ≠ some .paid := by
    unfold statusOf
    intro hpaid
    obtain ⟨row, hrow, hstatus⟩ := Option.map_eq_some_iff.mp hpaid
    obtain rfl := List.mem_singleton.mp (List.mem_of_find?_eq_some hrow)
    cases hstatus
  rw [if_neg hnone]
  rfl

def paidThenRejected : List RaceEvent :=
  payment 0 :: answered 0 4 ++ rejection 1 :: answered 1 1

theorem settlements_in_order_paid : ∃ c,
    run (system BalanceReports.sampleService).step (quiescent deskWorld) paidThenRejected = some c ∧
      Along (system BalanceReports.sampleService).step (fun c e => ∀ c',
        (system BalanceReports.sampleService).step c e = some c' → Moves c.world c'.world)
          (quiescent deskWorld) paidThenRejected ∧
      (transfersOf c.world "settlement").length ≤ 1 := by
  obtain ⟨c, hc⟩ :=
    Option.isSome_iff_exists.mp (show (run (system BalanceReports.sampleService).step
    (quiescent deskWorld) paidThenRejected).isSome = true by decide +kernel)
  have hfresh : Along (system BalanceReports.sampleService).step Fresh (quiescent deskWorld)
      paidThenRejected := along_mono (fun _ _ h => fresh_of_test h) (by decide +kernel)
  obtain ⟨hmoves, hjobs⟩ := settlements_in_order deskWorld_opening hfresh hc
  exact ⟨c, hc, hmoves, (hjobs "settlement").1⟩

/-- A payment and a rejection, or two payments, have both read the settlement before either
writes. -/
def bothRead (first second : ℕ → RaceEvent) : List RaceEvent :=
  first 0 :: second 1 :: answered 0 1 ++ answered 1 1 ++ answered 0 3

theorem late_writes :
    Opening deskWorld ∧
    (∃ c c', run (system BalanceReports.sampleService).step (quiescent deskWorld)
        (bothRead payment rejection) = some c ∧
      run (system BalanceReports.sampleService).step c (answered 1 1) = some c' ∧
      statusOf c.world "settlement" = some .paid ∧
      statusOf c'.world "settlement" = some .rejected) ∧
    ∃ c, run (system BalanceReports.sampleService).step (quiescent deskWorld)
        (bothRead payment payment ++ answered 1 3) = some c ∧
      (transfersOf c.world "settlement").length = 2 := by
  refine ⟨deskWorld_opening, ?_, ?_⟩
  · have hrun : ((run (system BalanceReports.sampleService).step (quiescent deskWorld)
        (bothRead payment rejection)).bind fun c =>
          (run (system BalanceReports.sampleService).step c (answered 1 1)).map fun c' =>
            (statusOf c.world "settlement", statusOf c'.world "settlement")) =
        some (some .paid, some .rejected) := by decide +kernel
    obtain ⟨c, hc, hrun⟩ := Option.bind_eq_some_iff.mp hrun
    obtain ⟨c', hc', hstatus⟩ := Option.map_eq_some_iff.mp hrun
    obtain ⟨hbefore, hafter⟩ := Prod.mk.inj hstatus
    exact ⟨c, c', hc, hc', hbefore, hafter⟩
  · have hrun : (run (system BalanceReports.sampleService).step (quiescent deskWorld)
        (bothRead payment payment ++ answered 1 3)).map (fun c =>
          (transfersOf c.world "settlement").length) = some 2 := by decide +kernel
    obtain ⟨c, hc, hlength⟩ := Option.map_eq_some_iff.mp hrun
    exact ⟨c, hc, hlength⟩

end Livora.SettlementRaces
