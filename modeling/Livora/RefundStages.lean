import Livora.StoreRefunds

/-! What one call about redemptions may do at each stage of it: the transfer of a
redemption is enqueued once, for the row that the transaction has read back before it
committed; REFUNDED is written where the row was read as COMPLETED, and its transfer
back enqueued once. -/

namespace Livora.RefundStages

open EffectPrograms EffectPrograms.Action SummedPrograms StoreRefunds StoreRedemptions
open StoreBooks (RedemptionTransaction FoundRedemption Failure parseCents)
open BalanceStages (only_getBalance)
open BackOffice (JobData)
open PinVerification (truthy)

structure Stage where
  tx : Option ℕ
  /-- The code whose completion the transaction has written. -/
  writing : Option String
  /-- What the transaction has read back. -/
  row : Option (Option RedemptionTransaction)
  /-- The completed redemption whose transfer has not been enqueued. -/
  owing : Option RedemptionTransaction
  /-- The redemption read for a refund, under its id. -/
  found : Option (String × RedemptionTransaction)
  /-- The refunded redemption whose transfer back has not been enqueued. -/
  returning : Option RedemptionTransaction
deriving DecidableEq

def Stage.first : Stage := ⟨none, none, none, none, none, none⟩

def isTransferOf (row : RedemptionTransaction) : JobData → Prop
  | .redemptionTransfer id _ _ _ _ tokenAmount => id = row.qrCodeRef ∧ tokenAmount = row.tokenAmount
  | _ => False

def isRefundOf (row : RedemptionTransaction) : JobData → Prop
  | .redemptionRefundTransfer id _ _ _ _ tokenAmount =>
    id = row.qrCodeRef ∧ tokenAmount = row.tokenAmount
  | _ => False

def Allowed (s : Stage) : Op → Prop
  | .inl .begin => s.tx = none
  | .inl (.completeRedemption tx _ _ _) => s.tx = some tx ∧ s.writing = none
  | .inl (.readRedemption tx qrCodeRef) => s.tx = some tx ∧ s.writing = some qrCodeRef
  | .inl (.commit tx) => s.tx = some tx ∧ s.row ≠ none
  | .inl (.add data _) => (∃ row, s.owing = some row ∧ isTransferOf row data) ∨
      ∃ row, s.returning = some row ∧ isRefundOf row data
  | .inr (.refund redemptionId) =>
    ∃ row, s.found = some (redemptionId, row) ∧ row.status = .completed
  | _ => True

def next (s : Stage) (i : Op) (r : Except Failure (Reply i)) : Stage :=
  match i, r with
  | .inl .begin, .ok tx => { s with tx := some tx }
  | .inl (.completeRedemption _ qrCodeRef _ _), .ok true => { s with writing := some qrCodeRef }
  | .inl (.readRedemption _ _), .ok row => { s with row := some row }
  | .inl (.commit _), .ok _ => { s with owing := s.row.join }
  | .inl (.emit _ _), .error _ => { s with owing := none }
  | .inl (.add (.redemptionTransfer _ _ _ _ _ _) _), _ => { s with owing := none }
  | .inl (.add (.redemptionRefundTransfer _ _ _ _ _ _) _), _ => { s with returning := none }
  | .inr (.findRefundable redemptionId), .ok (some redemption) =>
    { s with found := some (redemptionId, redemption.row) }
  | .inr (.refund _), .ok row => { s with returning := some row }
  | _, _ => s

def protocol : Protocol Stage Op fun i => Except Failure (Reply i) where
  Allowed := Allowed
  next := next

/-! ### Confirmations -/

section Confirmations

variable {svc : WalletBalance.Service} {s : Stage} {tx : ℕ} {householdUserId : String}
  {row : RedemptionTransaction} {amount : ℚ} {α : Type}

/-- What the stores do, with nothing owed at its end. -/
def Clears (s : Stage) (a : StoreBooks.Work α) : Prop :=
  Obeys (left protocol) (fun t _ => t.owing = none) s a

/-- The body of a transaction leaves nothing owed, and has read the row back where it returns. -/
def ReadsBack (s : Stage) (tx : ℕ) (a : StoreBooks.Work (Option RedemptionTransaction)) : Prop :=
  Obeys (left protocol) (fun t x => t.owing = none ∧ ∀ row, x = .ok row →
    t.tx = some tx ∧ t.row = some row) s a

theorem reads_throw (hs : s.owing = none) (e : Failure) : ReadsBack s tx (throw e) :=
  ⟨hs, fun _ h => by cases h⟩

theorem stays_getBalance (userId : String) :
    Obeys (left protocol) (fun t _ => t = s) s (WalletBalance.getBalance svc userId) := by
  refine (only_getBalance userId).obeys fun i hi => ?_
  cases i <;> first
    | exact ⟨trivial, fun r => rfl⟩
    | (rcases hi with hi | ⟨storeId, he⟩
       · exact False.elim hi
       · cases he)

theorem reads_completeRow (hs : s.owing = none) (htx : s.tx = some tx)
    (hwriting : s.writing = none) :
    ReadsBack s tx (completeRow householdUserId row amount tx) := by
  refine obeys_call.mpr ⟨⟨htx, hwriting⟩, fun updated => ?_, fun e => ⟨hs, fun _ h => by cases h⟩⟩
  cases updated with
  | false => exact reads_throw hs _
  | true =>
    refine obeys_bind.mpr
      (obeys_recover.mpr (obeys_perform.mpr ⟨trivial, fun _ => ?_, fun e => ?_⟩))
    · refine obeys_perform.mpr ⟨⟨htx, rfl⟩, fun row => ⟨hs, fun _ h => ?_⟩,
        fun e => ⟨hs, fun _ h => by cases h⟩⟩
      cases h
      exact ⟨htx, rfl⟩
    · refine obeys_perform.mpr ⟨⟨htx, rfl⟩, fun row => ⟨hs, fun _ h => ?_⟩,
        fun e => ⟨hs, fun _ h => by cases h⟩⟩
      cases h
      exact ⟨htx, rfl⟩

theorem reads_checkBalance (hs : s.owing = none) (htx : s.tx = some tx)
    (hwriting : s.writing = none) :
    ReadsBack s tx (checkBalance svc householdUserId row amount tx) := by
  refine obeys_bind.mpr ((stays_getBalance householdUserId).mono ?_ ?_)
  · rintro t text rfl
    dsimp only
    split
    · exact reads_throw hs _
    · exact reads_completeRow hs htx hwriting
  · rintro t e rfl
    exact ⟨hs, fun _ h => by cases h⟩

theorem reads_completeWithin (hs : s.owing = none) (htx : s.tx = some tx)
    (hwriting : s.writing = none) :
    ReadsBack s tx (completeWithin svc householdUserId row amount tx) := by
  refine obeys_call.mpr ⟨trivial, fun found => ?_, fun e => ⟨hs, fun _ h => by cases h⟩⟩
  cases found with
  | none => exact reads_throw hs _
  | some lockedUser =>
    dsimp only
    split
    · exact reads_throw hs _
    · refine obeys_call.mpr ⟨trivial, fun locked => ?_, fun e => ⟨hs, fun _ h => by cases h⟩⟩
      split
      · exact reads_checkBalance hs htx hwriting
      · exact reads_throw hs _

theorem obeys_transaction {body : ℕ → StoreBooks.Work (Option RedemptionTransaction)}
    (hs : s.owing = none) (htx : s.tx = none)
    (hbody : ∀ tx, ReadsBack { s with tx := some tx } tx (body tx)) :
    Obeys (left protocol) (fun t x => match x with
      | .ok row => t.owing = row
      | .error _ => t.owing = none) s (transaction body) := by
  refine obeys_call.mpr ⟨htx, fun tx => ?_, fun e => hs⟩
  refine obeys_bind.mpr (obeys_rescue.mpr ((hbody tx).mono ?_ ?_))
  · rintro t row ⟨howing, hread⟩
    obtain ⟨ht, hrow⟩ := hread row rfl
    refine obeys_call.mpr ⟨⟨ht, by rw [hrow]; exact Option.some_ne_none _⟩, fun _ =>
      ?_, fun e => ?_⟩
    · change t.row.join = row
      rw [hrow]
      rfl
    · exact howing
  · rintro t e ⟨ht, -⟩
    refine obeys_bind.mpr
      (obeys_recover.mpr (obeys_perform.mpr ⟨trivial, fun _ => ?_, fun e => ?_⟩))
    · exact ht
    · exact ht

theorem clears_announce {redemption : FoundRedemption} {wallet : String}
    {updated : RedemptionTransaction} (hs : s.owing = some updated) :
    Clears s (announce householdUserId redemption wallet updated) := by
  refine obeys_call.mpr ⟨trivial, fun _ => ?_, fun e => rfl⟩
  exact obeys_call.mpr ⟨.inl ⟨updated, hs, rfl, rfl⟩, fun _ => rfl, fun e => rfl⟩

theorem clears_confirmPending {redemption : FoundRedemption} (hs : s.owing = none)
    (htx : s.tx = none) (hwriting : s.writing = none) :
    Clears s (confirmPending svc householdUserId amount redemption) := by
  refine obeys_call.mpr ⟨trivial, fun found => ?_, fun e => hs⟩
  cases found with
  | none => exact hs
  | some user =>
    dsimp only
    split
    · exact hs
    · refine obeys_bind.mpr ((obeys_transaction hs htx fun tx =>
        reads_completeWithin hs rfl hwriting).mono ?_ fun _ _ h => h)
      intro t updated ht
      cases updated with
      | none => exact ht
      | some updated => exact clears_announce ht

theorem clears_confirmRedemption {qrCodeRef : String} {dto : Option ConfirmRedemptionDto}
    (hs : s.owing = none) (htx : s.tx = none) (hwriting : s.writing = none) :
    Clears s (confirmRedemption svc householdUserId qrCodeRef dto) := by
  unfold confirmRedemption
  split
  · exact hs
  · split
    · refine obeys_call.mpr ⟨trivial, fun found => ?_, fun e => hs⟩
      cases found with
      | none => exact hs
      | some redemption =>
        dsimp only
        split
        · exact hs
        · exact clears_confirmPending hs htx hwriting
    · exact hs

theorem clears_program (svc : WalletBalance.Service) (caller : RedemptionStages.Caller)
    (hs : s.owing = none) (htx : s.tx = none) (hwriting : s.writing = none) :
    Clears s (RedemptionStages.program svc caller) := by
  cases caller with
  | generateQrRedemption storeProfileId dto =>
    change Clears s (generateQrRedemption storeProfileId dto)
    unfold generateQrRedemption
    split
    · exact hs
    · exact obeys_perform.mpr ⟨trivial, fun _ => hs, fun e => hs⟩
  | confirmRedemption householdUserId qrCodeRef dto =>
    exact clears_confirmRedemption hs htx hwriting

end Confirmations

/-! ### Refunds -/

section Refunds

open StoreRedemptionsService

variable {svc : WalletBalance.Service} {s : Stage} {storeUserId redemptionId : String}
  {storeUser : BackOffice.User} {redemption : Refundable}

/-- The action makes only allowed calls, and owes nothing at its end. -/
def Settles {α : Type} (s : Stage) (a : Work α) : Prop :=
  Obeys protocol (fun t _ => t.owing = none) s a

theorem settles_store {α : Type} {a : StoreBooks.Work α} (h : Clears s a) : Settles s (store a) :=
  obeys_lift.mpr h

theorem settles_notify (hs : s.owing = none) (updated : RedemptionTransaction) :
    Settles s (do
      store (StoreBooks.call (.emit storeUserId "redemption:refunded"))
      pure updated) :=
  obeys_bind.mpr (obeys_lift.mpr (obeys_perform.mpr ⟨trivial, fun _ => hs, fun _ => rfl⟩))

theorem isRefundOf_refundJob {updated : RedemptionTransaction} {job : JobData}
    (h : refundJob storeUserId redemption storeUser updated = some job) :
    isRefundOf updated job := by
  obtain ⟨userId, -, h⟩ := Option.bind_eq_some_iff.mp h
  obtain ⟨toWallet, -, h⟩ := Option.bind_eq_some_iff.mp h
  obtain ⟨fromWallet, -, h⟩ := Option.bind_eq_some_iff.mp h
  cases h
  exact ⟨rfl, rfl⟩

theorem settles_refund (hs : s.owing = none)
    (hfound : s.found = some (redemptionId, redemption.row))
    (hcompleted : redemption.row.status = .completed) :
    Settles s (refund storeUserId redemption storeUser redemptionId) := by
  refine obeys_call.mpr ⟨⟨_, hfound, hcompleted⟩, fun updated => ?_, fun e => hs⟩
  cases hjob : refundJob storeUserId redemption storeUser updated with
  | none =>
    refine settles_notify ?_ updated
    exact hs
  | some job =>
    have hrefund := isRefundOf_refundJob hjob
    refine obeys_bind.mpr (obeys_lift.mpr (obeys_perform.mpr ⟨.inr ⟨updated, rfl, hrefund⟩,
      fun _ => ?_, fun e => ?_⟩))
    · refine settles_notify ?_ updated
      cases job with
      | redemptionRefundTransfer id a b c d amount => exact hs
      | _ => exact False.elim hrefund
    · cases job with
      | redemptionRefundTransfer id a b c d amount => exact hs
      | _ => exact False.elim hrefund

theorem settles_refundCompleted (hs : s.owing = none)
    (hfound : s.found = some (redemptionId, redemption.row))
    (hcompleted : redemption.row.status = .completed) :
    Settles s (refundCompleted svc storeUserId storeUser redemptionId redemption) := by
  refine obeys_call.mpr ⟨trivial, fun now => ?_, fun e => hs⟩
  split
  · exact hs
  · refine obeys_bind.mpr (obeys_lift.mpr ((stays_getBalance storeUserId).mono ?_ ?_))
    · rintro t text rfl
      change Settles _ (if parseCents text < _ then _ else _)
      split
      · exact hs
      · exact settles_refund hs hfound hcompleted
    · rintro t e rfl
      exact hs

theorem settles_refundRedemption (hs : s.owing = none) :
    Settles s (refundRedemption svc storeUserId redemptionId) := by
  refine obeys_call.mpr ⟨trivial, fun found => ?_, fun e => hs⟩
  cases found with
  | none => exact hs
  | some profile =>
    refine obeys_call.mpr ⟨trivial, fun redemption => ?_, fun e => hs⟩
    cases redemption with
    | none => exact hs
    | some redemption =>
      change Settles _ (if redemption.row.storeId = profile.1.id then
        if redemption.row.status = .completed then _ else throw _ else throw _)
      split
      · split
        · exact settles_refundCompleted hs rfl ‹_›
        · exact hs
      · exact hs

end Refunds

theorem settles_program (svc : WalletBalance.Service) (caller : Caller) :
    Settles .first (program svc caller) := by
  cases caller with
  | redemption caller => exact settles_store (clears_program svc caller rfl rfl rfl)
  | refundRedemption storeUserId redemptionId => exact settles_refundRedemption rfl

end Livora.RefundStages
