import Livora.RedemptionStages
import Livora.SummedPrograms

/-! Refunds of redemptions, beside their confirmations. A refund reads the redemption,
the clock and the balance of the store, and then writes REFUNDED by the id alone; the
transfer back is a job of its own. The clock and the times at which the redemptions
were created stand beside the tables of the store. -/

namespace Livora.StoreRefunds

open DoubleRounding EffectPrograms EffectPrograms.Action SummedPrograms StoreBooks
open BackOffice (User JobData)
open PinVerification (truthy)

/-! ### The calls -/

structure Refundable where
  row : RedemptionTransaction
  user : Option User
  createdAt : ℕ
deriving DecidableEq

inductive RefundOp where
  | clock
  /-- The profile of a store user, with the user. -/
  | findStore (userId : String)
  | findRefundable (redemptionId : String)
  | refund (redemptionId : String)

abbrev RefundReply : RefundOp → Type
  | .clock => ℕ
  | .findStore _ => Option (StoreProfile × User)
  | .findRefundable _ => Option Refundable
  | .refund _ => RedemptionTransaction

abbrev Op := StoreBooks.Op ⊕ RefundOp

abbrev Reply : Op → Type := Sum.elim StoreBooks.Reply RefundReply

abbrev Work (α : Type) := Action Op Reply Failure α

def call (i : RefundOp) : Work (RefundReply i) := perform (Sum.inr i : Op)

def store {α : Type} (a : StoreBooks.Work α) : Work α := lift a

/-! ### The service -/

namespace StoreRedemptionsService

def diffHours (createdAt now : ℕ) : ℚ := fl (((now : ℚ) - createdAt) / (1000 * 60 * 60))

/-- `x.toFixed(1)` of a number that is not negative. -/
def tenthsText (x : ℚ) : String :=
  let tenths := (round (x * 10)).toNat
  toString (tenths / 10) ++ "." ++ toString (tenths % 10)

def tooLate (hours : ℚ) : Failure :=
  .badRequest ("El plazo máximo de 24 horas para anular el canje ha expirado (Han transcurrido " ++
    tenthsText hours ++ " horas)")

def insufficient (refundAmount storeBalance : ℚ) : Failure :=
  .badRequest ("Saldo insuficiente de LIVOs en la tienda para revertir el canje. Requerido: " ++
    numberText refundAmount ++ " LIVO, Saldo disponible: " ++ numberText storeBalance ++ " LIVO.")

def refundJob (storeUserId : String) (redemption : Refundable) (storeUser : User)
    (updatedRedemption : RedemptionTransaction) : Option JobData := do
  let userId ← truthy redemption.row.userId
  let toWallet ← truthy (redemption.user.bind User.walletAddress)
  let fromWallet ← truthy storeUser.walletAddress
  some (.redemptionRefundTransfer updatedRedemption.qrCodeRef storeUserId userId fromWallet toWallet
    updatedRedemption.tokenAmount)

def refund (storeUserId : String) (redemption : Refundable) (storeUser : User)
    (redemptionId : String) : Work RedemptionTransaction := do
  let updatedRedemption ← call (.refund redemptionId)
  match refundJob storeUserId redemption storeUser updatedRedemption with
  | some job => store (StoreBooks.call (.add job 5))
  | none => pure ()
  store (StoreBooks.call (.emit storeUserId "redemption:refunded"))
  pure updatedRedemption

def refundCompleted (svc : WalletBalance.Service) (storeUserId : String) (storeUser : User)
    (redemptionId : String) (redemption : Refundable) : Work RedemptionTransaction := do
  let now ← call .clock
  if 24 < diffHours redemption.createdAt now then throw (tooLate (diffHours redemption.createdAt now))
  else do
    let text ← store (WalletBalance.getBalance svc storeUserId)
    if parseCents text < fl redemption.row.tokenAmount then
      throw (insufficient (fl redemption.row.tokenAmount) (parseCents text))
    else refund storeUserId redemption storeUser redemptionId

def refundRedemption (svc : WalletBalance.Service) (storeUserId redemptionId : String) :
    Work RedemptionTransaction := do
  match ← call (.findStore storeUserId) with
  | none => throw (.notFound "Perfil de tienda no encontrado para este usuario")
  | some (storeProfile, storeUser) =>
    match ← call (.findRefundable redemptionId) with
    | none => throw (.notFound "Transacción de canje no encontrada")
    | some redemption =>
      if redemption.row.storeId = storeProfile.id then
        if redemption.row.status = .completed then
          refundCompleted svc storeUserId storeUser redemptionId redemption
        else throw (.badRequest ("Solo transacciones en estado COMPLETED pueden ser anuladas " ++
          "(Estado actual: " ++ redemption.row.status.name ++ ")"))
      else throw (.forbidden "Esta transacción no corresponde a tu tienda")

end StoreRedemptionsService

/-! ### The callers -/

inductive Caller where
  | redemption (caller : RedemptionStages.Caller)
  | refundRedemption (storeUserId redemptionId : String)

def program (svc : WalletBalance.Service) : Caller → Work RedemptionTransaction
  | .redemption caller => store (RedemptionStages.program svc caller)
  | .refundRedemption storeUserId redemptionId =>
    StoreRedemptionsService.refundRedemption svc storeUserId redemptionId

/-! ### The world -/

structure World where
  books : StoreBooks.World
  createdAt : String → ℕ
  now : ℕ

namespace World

def refunded (redemptionId : String) (row : RedemptionTransaction) : RedemptionTransaction :=
  if row.qrCodeRef = redemptionId then { row with status := .refunded } else row

def refundable (w : World) (redemptionId : String) : Option Refundable :=
  (w.books.findRedemption redemptionId).map fun row =>
    ⟨row, row.userId.bind w.books.findUser, w.createdAt redemptionId⟩

def stamped (w : World) (o : Outcome) : StoreBooks.Op → String → ℕ
  | .createRedemption _ _ =>
    if o.delivery.applied && (w.books.findRedemption o.id).isNone then
      Function.update w.createdAt o.id w.now
    else w.createdAt
  | _ => w.createdAt

def refund (w : World) (redemptionId : String) : World :=
  { w with
    books := { w.books with redemptions := w.books.redemptions.map (refunded redemptionId) } }

def reply (w : World) (i : Op) (o : Outcome) : Except Failure (Reply i) :=
  match i with
  | .inl i => w.books.reply i o
  | .inr .clock => .ok w.now
  | .inr (.findStore userId) => o.delivery.answer .outside do
      let profile ← w.books.stores.find? fun store => store.userId == userId
      let user ← w.books.findUser userId
      some (profile, user)
  | .inr (.findRefundable redemptionId) => o.delivery.answer .outside (w.refundable redemptionId)
  | .inr (.refund redemptionId) =>
    match w.books.findRedemption redemptionId with
    | some row => o.delivery.answer .outside (refunded redemptionId row)
    | none => .error .outside

def after (w : World) (i : Op) (o : Outcome) : World :=
  match i with
  | .inl i => { w with books := w.books.after i o, createdAt := w.stamped o i }
  | .inr (.refund redemptionId) => if o.delivery.applied then w.refund redemptionId else w
  | .inr _ => w

def serve (w : World) (i : Op) (o : Outcome) : Except Failure (Reply i) × World :=
  (w.reply i o, w.after i o)

end World

end Livora.StoreRefunds
