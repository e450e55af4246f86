import Livora.BalanceStages
import Livora.StoreRedemptions

/-! What one call of `confirmRedemption` may do at each stage of it: it completes a code
for a user whose row it has locked, for what it made of the row it found, and where
the balance it has read since then covers that. -/

namespace Livora.RedemptionStages

open EffectPrograms EffectPrograms.Action StoreBooks BalanceStages StoreRedemptions
open PinVerification (truthy)

inductive Caller where
  | generateQrRedemption (storeProfileId : String) (dto : CreateQrRedemptionDto)
  | confirmRedemption (householdUserId qrCodeRef : String) (dto : Option ConfirmRedemptionDto)

def program (svc : WalletBalance.Service) : Caller → Work RedemptionTransaction
  | .generateQrRedemption storeProfileId dto => generateQrRedemption storeProfileId dto
  | .confirmRedemption householdUserId qrCodeRef dto =>
    confirmRedemption svc householdUserId qrCodeRef dto

structure Stage where
  row : Option RedemptionTransaction
  /-- The transaction, and the user whose row it has locked. -/
  locked : Option (ℕ × String)
  reading : Reading
deriving DecidableEq

def Stage.first : Stage := ⟨none, none, .first⟩

structure Checked (s : Stage) (tx : ℕ) (userId : String) (amount : ℚ) : Prop where
  locked : s.locked = some (tx, userId)
  made : ∃ row dto, s.row = some row ∧ amount = finalAmount row dto
  covered : ∃ cents, Reported s.reading userId cents ∧ ¬ parseCents cents < amount

def Allowed (s : Stage) : Op → Prop
  | .createRedemption _ amount => ∃ dto : CreateQrRedemptionDto, amount = dto.tokenAmount.val
  | .completeRedemption tx _ userId amount => Checked s tx userId amount
  | .createStoreProfile _ => False
  | .createSettlement _ _ => False
  | i => s.reading.Allowed i

def next (s : Stage) (i : Op) (r : Except Failure (Reply i)) : Stage :=
  match i, r with
  | .findRedemption _, .ok (some found) => { s with row := some found.row }
  | .lockUser tx userId, .ok (some _) => { s with locked := some (tx, userId), reading := .first }
  | i, r => { s with reading := s.reading.next i r }

def protocol : Protocol Stage Op fun i => Except Failure (Reply i) where
  Allowed := Allowed
  next := next

theorem reads : Reads protocol Stage.reading fun s => (s.row, s.locked) := by
  intro s i h
  cases i <;> first
    | exact ⟨id, fun r => ⟨rfl, rfl⟩⟩
    | (rcases h with h | ⟨storeId, he⟩
       · exact False.elim h
       · cases he)

section Programs

variable {svc : WalletBalance.Service} {s : Stage} {tx : ℕ} {householdUserId : String}
  {row : RedemptionTransaction} {amount : ℚ}

theorem follows_completeRow (h : Checked s tx householdUserId amount) :
    Follows protocol s (completeRow householdUserId row amount tx) := by
  refine follows_call h fun updated => ?_
  split
  · refine follows_bind (follows_recover (follows_perform trivial)) fun _ t => ?_
    exact follows_perform trivial
  · exact follows_throw _

theorem follows_checkBalance (hlocked : s.locked = some (tx, householdUserId))
    (hrow : ∃ row dto, s.row = some row ∧ amount = finalAmount row dto) :
    Follows protocol s (checkBalance svc householdUserId row amount tx) := by
  unfold checkBalance Follows
  rw [obeys_bind]
  refine (obeys_getBalance reads householdUserId).mono ?_ fun _ _ _ => trivial
  rintro t text ⟨hrest, hreported⟩
  obtain ⟨htrow, htlocked⟩ := Prod.mk.inj hrest
  simp only
  split
  · exact follows_throw _
  · rename_i hcovered
    refine follows_completeRow ⟨htlocked.trans hlocked, ?_, text, hreported text rfl, hcovered⟩
    obtain ⟨found, dto, hfound, hamount⟩ := hrow
    exact ⟨found, dto, htrow.trans hfound, hamount⟩

theorem follows_completeWithin (hrow : ∃ row dto, s.row = some row ∧ amount = finalAmount row dto) :
    Follows protocol s (completeWithin svc householdUserId row amount tx) := by
  refine follows_call trivial fun found => ?_
  cases found with
  | none => exact follows_throw _
  | some lockedUser =>
    simp only
    split
    · exact follows_throw _
    · refine follows_call trivial fun locked => ?_
      split
      · exact follows_checkBalance rfl hrow
      · exact follows_throw _

theorem follows_transaction {α : Type} {body : ℕ → Work α}
    (hbody : ∀ tx, Follows protocol s (body tx)) : Follows protocol s (transaction body) := by
  refine follows_call trivial fun tx => ?_
  refine follows_bind (follows_rescue (hbody tx) fun e t => ?_) fun result t => ?_
  · exact follows_bind (follows_recover (follows_perform trivial)) fun _ _ => follows_throw _
  · exact follows_bind (follows_perform trivial) fun _ _ => follows_pure _

theorem follows_announce {redemption : FoundRedemption} {wallet : String}
    {updated : RedemptionTransaction} :
    Follows protocol s (announce householdUserId redemption wallet updated) := by
  refine follows_bind (follows_perform trivial) fun _ _ => ?_
  exact follows_bind (follows_perform trivial) fun _ _ => follows_pure _

theorem follows_confirmPending {redemption : FoundRedemption}
    (hrow : ∃ row dto, s.row = some row ∧ amount = finalAmount row dto) :
    Follows protocol s (confirmPending svc householdUserId amount redemption) := by
  refine follows_call trivial fun found => ?_
  have hrow' : ∃ row dto, (protocol.next s (.findUser householdUserId) (.ok found)).row = some row ∧
      amount = finalAmount row dto := hrow
  cases found with
  | none => exact follows_throw _
  | some user =>
    simp only
    split
    · exact follows_throw _
    · refine follows_bind (follows_transaction fun tx => follows_completeWithin hrow')
        fun updated t => ?_
      cases updated with
      | none => exact follows_throw _
      | some updated => exact follows_announce

theorem follows_confirmRedemption {qrCodeRef : String} {dto : Option ConfirmRedemptionDto} :
    Follows protocol s (confirmRedemption svc householdUserId qrCodeRef dto) := by
  unfold confirmRedemption
  split
  · exact follows_throw _
  · split
    · refine follows_call trivial fun found => ?_
      cases found with
      | none => exact follows_throw _
      | some redemption =>
        simp only
        split
        · exact follows_throw _
        · exact follows_confirmPending ⟨_, _, rfl, rfl⟩
    · exact follows_throw _

theorem follows_program (svc : WalletBalance.Service) (caller : Caller) :
    Follows protocol s (program svc caller) := by
  cases caller with
  | generateQrRedemption storeProfileId dto =>
    change Follows protocol s (generateQrRedemption storeProfileId dto)
    unfold generateQrRedemption
    split
    · exact follows_throw _
    · exact follows_perform ⟨dto, rfl⟩
  | confirmRedemption householdUserId qrCodeRef dto => exact follows_confirmRedemption

end Programs

end Livora.RedemptionStages
