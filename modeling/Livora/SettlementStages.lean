import Livora.BalanceStages
import Livora.StoreSettlements

/-! What one call about settlements may do at each stage of it: a request is created for
the profile of the user whose balance was read, where that covers it and what was
PENDING; a status is written that the one read allows; and one transfer is enqueued
for a settlement that was marked PAID. -/

namespace Livora.SettlementStages

open EffectPrograms EffectPrograms.Action StoreBooks BalanceStages StoreSettlements
open BackOffice (JobData)
open PinVerification (truthy)

inductive Caller where
  | requestSettlement (userId : String) (dto : CreateSettlementRequestDto)
  | paySettlement (settlementId : String) (dto : PaySettlementDto)
  | updateSettlementStatus (settlementId : String) (dto : UpdateSettlementStatusDto)

def program (svc : WalletBalance.Service) : Caller → Work SettlementRequest
  | .requestSettlement userId dto => requestOfUser svc userId dto
  | .paySettlement settlementId dto => paySettlement svc settlementId dto
  | .updateSettlementStatus settlementId dto => updateSettlementStatus svc settlementId dto

/-- The changes of the machine: PENDING to the other three, and from there on to PAID or
REJECTED. -/
def transition : SettlementStatus → SettlementStatus → Bool
  | .pending, .approvedPendingPayment => true
  | .pending, .paid => true
  | .pending, .rejected => true
  | .approvedPendingPayment, .paid => true
  | .approvedPendingPayment, .rejected => true
  | _, _ => false

structure Stage where
  reading : Reading
  /-- The profile of the user who asks, with his id. -/
  profile : Option (String × StoreProfile)
  /-- The PENDING requests that were added up. -/
  retained : Option (List SettlementRequest)
  found : Option (String × FoundSettlement)
  /-- The settlement marked PAID whose transfer has not been enqueued. -/
  owing : Option SettlementRequest
deriving DecidableEq

def Stage.first : Stage := ⟨.first, none, none, none, none⟩

/-- The balance read covers the amount and what was PENDING. -/
structure Requested (s : Stage) (storeId : String) (amount : ℚ) : Prop where
  covered : ∃ userId profile cents rows, s.profile = some (userId, profile) ∧ storeId = profile.id ∧
    Reported s.reading userId cents ∧ s.retained = some rows ∧
      ¬ availableBalance (parseCents cents) rows < amount
  valid : ∃ dto : CreateSettlementRequestDto, amount = dto.tokenAmount.val

def Allowed (s : Stage) : Op → Prop
  | .findOwnProfile _ => True
  | .createStoreProfile _ => True
  | .setBankAccount _ _ => True
  | .emit _ _ => True
  | .pendingSettlements _ => s.retained = none
  | .createSettlement storeId amount => Requested s storeId amount
  | .findSettlement _ => s.owing = none
  | .updateSettlement id status _ => s.owing = none ∧ ∃ settlementId f,
      s.found = some (settlementId, f) ∧ (id = settlementId ∨ id = f.row.id) ∧
        transition f.row.status status = true
  | .add data _ => ∃ row settlementId f source target, s.owing = some row ∧
      s.found = some (settlementId, f) ∧
        data = .settlementTransfer row.id f.storeUser.id source target row.tokenAmount
  | i => Balance i ∧ s.reading.Allowed i

def next (s : Stage) (i : Op) (r : Except Failure (Reply i)) : Stage :=
  match i, r with
  | .findOwnProfile userId, .ok (some profile) => { s with profile := some (userId, profile) }
  | .createStoreProfile userId, .ok profile => { s with profile := some (userId, profile) }
  | .pendingSettlements _, .ok rows => { s with retained := some rows }
  | .findSettlement settlementId, .ok (some f) => { s with found := some (settlementId, f) }
  | .updateSettlement _ .paid _, .ok row => { s with owing := some row }
  | .emit _ _, .error _ => { s with owing := none }
  | .add _ _, _ => { s with owing := none }
  | i, r => { s with reading := s.reading.next i r }

def protocol : Protocol Stage Op fun i => Except Failure (Reply i) where
  Allowed := Allowed
  next := next

theorem reads : Reads protocol Stage.reading fun s => (s.owing, s.retained, s.profile) := by
  intro s i h
  cases i <;> first
    | exact ⟨fun hallowed => ⟨h, hallowed⟩, fun r => ⟨rfl, rfl⟩⟩
    | (rcases h with h | ⟨storeId, he⟩
       · exact False.elim h
       · cases he)

/-! ### The programs -/

/-- The action makes only allowed calls, and leaves no transfer to be enqueued. -/
def Clears {α : Type} (s : Stage) (a : Work α) : Prop :=
  Obeys protocol (fun t _ => t.owing = none) s a

section Programs

variable {svc : WalletBalance.Service} {s : Stage} {userId : String} {profile : StoreProfile}
  {α : Type}

theorem clears_call {i : Op} {f : Reply i → Work α} (hallowed : Allowed s i)
    (hf : ∀ x, Clears (next s i (.ok x)) (f x)) (herror : ∀ e, (next s i (.error e)).owing = none) :
    Clears s (call i >>= f) :=
  obeys_call.mpr ⟨hallowed, hf, herror⟩

theorem clears_after {β : Type} {a : Work β} {f : β → Work α} {Q : Stage → β → Prop}
    (ha : Obeys protocol (fun t x => t.owing = none ∧ ∀ y, x = .ok y → Q t y) s a)
    (hf : ∀ x t, t.owing = none → Q t x → Clears t (f x)) : Clears s (a >>= f) :=
  obeys_bind.mpr (ha.mono (fun t x hx => hf x t hx.1 (hx.2 x rfl)) fun _ _ hx => hx.1)

/-- No request has been added up, and no transfer is to be enqueued. -/
structure Unburdened (s : Stage) : Prop where
  owing : s.owing = none
  retained : s.retained = none

theorem clears_requestChecked (hs : Unburdened s) (dto : CreateSettlementRequestDto)
    (hprofile : s.profile = some (userId, profile)) :
    Clears s (requestChecked svc userId profile dto.tokenAmount.val) := by
  refine clears_after (Q := fun t text => t.retained = none ∧ t.profile = some (userId, profile) ∧
    Reported t.reading userId text) ?_ fun text t ht ⟨hretained, htprofile, hreported⟩ => ?_
  · refine (obeys_getBalance reads userId).mono ?_ ?_
    · rintro t text ⟨hrest, hreported⟩
      obtain ⟨howing, hrest⟩ := Prod.mk.inj hrest
      obtain ⟨hretained, htprofile⟩ := Prod.mk.inj hrest
      refine ⟨howing.trans hs.owing, fun y hy => ?_⟩
      exact ⟨hretained.trans hs.retained, htprofile.trans hprofile, hreported y hy⟩
    · rintro t e ⟨hrest, -⟩
      exact ⟨(Prod.mk.inj hrest).1.trans hs.owing, fun y hy => by cases hy⟩
  · refine clears_call hretained (fun rows => ?_) fun e => ht
    split
    · exact ht
    · refine ⟨⟨⟨userId, profile, text, rows, htprofile, rfl, hreported, rfl, ‹_›⟩, dto, rfl⟩, ?_⟩
      exact fun r => ht

theorem obeys_updateBankAccount (hs : Unburdened s) (storeProfile : StoreProfile) (cci : String) :
    Obeys protocol (fun t x => t.owing = none ∧ ∀ y, x = .ok y →
      Unburdened t ∧ t.profile = s.profile) s (updateBankAccount storeProfile cci) := by
  unfold updateBankAccount
  split
  · split
    · exact ⟨trivial, fun _ => ⟨hs.owing, fun _ _ => ⟨hs, rfl⟩⟩⟩
    · exact ⟨hs.owing, fun _ _ => ⟨hs, rfl⟩⟩
  · exact ⟨hs.owing, fun _ _ => ⟨hs, rfl⟩⟩

theorem clears_requestSettlement (hs : Unburdened s) (dto : CreateSettlementRequestDto)
    {found : Option StoreProfile} (hfound : ∀ p, found = some p → s.profile = some (userId, p)) :
    Clears s (requestSettlement svc userId found dto) := by
  unfold requestSettlement
  cases found with
  | none => exact hs.owing
  | some profile =>
    have hprofile := hfound profile rfl
    simp only
    split
    · exact clears_requestChecked hs dto hprofile
    · refine clears_after (obeys_updateBankAccount hs profile _) fun _ t _ ⟨ht, htprofile⟩ => ?_
      exact clears_requestChecked ht dto (htprofile.trans hprofile)

theorem obeys_getOrCreateStoreProfile (hs : Unburdened s) :
    Obeys protocol (fun t x => t.owing = none ∧ ∀ found, x = .ok found → Unburdened t ∧
      ∀ p, found = some p → t.profile = some (userId, p)) s (getOrCreateStoreProfile userId) := by
  refine obeys_call.mpr ⟨trivial, fun found => ?_, fun e => ⟨hs.owing, fun y hy => by cases hy⟩⟩
  cases found with
  | some profile =>
    refine ⟨hs.owing, fun y hy => ⟨⟨hs.owing, hs.retained⟩, fun p hp => ?_⟩⟩
    cases hy
    cases hp
    rfl
  | none =>
    refine obeys_call.mpr ⟨⟨trivial, trivial⟩, fun found => ?_, fun e =>
      ⟨hs.owing, fun y hy => by cases hy⟩⟩
    cases found with
    | none =>
      refine ⟨hs.owing, fun y hy => ⟨⟨hs.owing, hs.retained⟩, fun p hp => ?_⟩⟩
      cases hy
      cases hp
    | some user =>
      simp only
      split
      · refine obeys_call.mpr ⟨trivial,
          fun profile => ⟨hs.owing, fun y hy => ⟨⟨hs.owing, hs.retained⟩, fun p hp => ?_⟩⟩,
          fun e => ⟨hs.owing, fun y hy => by cases hy⟩⟩
        cases hy
        cases hp
        rfl
      · refine ⟨hs.owing, fun y hy => ⟨⟨hs.owing, hs.retained⟩, fun p hp => ?_⟩⟩
        cases hy
        cases hp

theorem clears_requestOfUser (hs : Unburdened s) (dto : CreateSettlementRequestDto) :
    Clears s (requestOfUser svc userId dto) :=
  clears_after (obeys_getOrCreateStoreProfile hs) fun _ _ _ ⟨ht, hfound⟩ =>
    clears_requestSettlement ht dto hfound

theorem clears_payFound (hs : s.owing = none) {settlementId : String} {f : FoundSettlement}
    {dto : PaySettlementDto} (hfound : s.found = some (settlementId, f))
    (hunpaid : Unpaid f.row.status) : Clears s (payFound svc f dto) := by
  have htransition : transition f.row.status .paid = true := by
    rcases hunpaid with h | h <;> rw [h] <;> rfl
  refine clears_call ⟨hs, settlementId, f, hfound, .inr rfl, htransition⟩ (fun updated => ?_)
    fun e => hs
  refine clears_call trivial (fun _ => ?_) fun e => rfl
  refine clears_call ⟨updated, settlementId, f, _, _, rfl, hfound, rfl⟩ (fun _ => ?_) fun e => rfl
  rfl

theorem clears_paySettlement (hs : s.owing = none) {settlementId : String}
    {dto : PaySettlementDto} :
    Clears s (paySettlement svc settlementId dto) := by
  refine clears_call hs (fun found => ?_) fun e => hs
  cases found with
  | none => exact hs
  | some f =>
    have hnext : (next s (.findSettlement settlementId) (.ok (some f))).owing = none := hs
    simp only
    split
    · exact clears_payFound hnext rfl ‹_›
    · exact hnext

theorem clears_updateFound (hs : s.owing = none) {settlementId event : String} {f : FoundSettlement}
    {status : SettlementStatus} (hfound : s.found = some (settlementId, f))
    (htransition : transition f.row.status status = true) (hstatus : status ≠ .paid) :
    Clears s (updateFound settlementId f status event) := by
  have hnext (r : Except Failure SettlementRequest) :
      (next s (.updateSettlement settlementId status none) r).owing = none := by
    cases status with
    | paid => exact absurd rfl hstatus
    | _ => exact hs
  refine clears_call ⟨hs, settlementId, f, hfound, .inl rfl, htransition⟩ (fun updated => ?_)
    fun e => hnext (.error e)
  exact clears_call trivial (fun _ => hnext (.ok updated)) fun e => rfl

theorem clears_updateSettlementStatus (hs : s.owing = none) {settlementId : String}
    {dto : UpdateSettlementStatusDto} :
    Clears s (updateSettlementStatus svc settlementId dto) := by
  refine clears_call hs (fun found => ?_) fun e => hs
  cases found with
  | none => exact hs
  | some f =>
    have hnext : (next s (.findSettlement settlementId) (.ok (some f))).owing = none := hs
    simp only
    split
    · unfold approve
      split
      · exact clears_updateFound hnext rfl (by rw [‹f.row.status = _›]; rfl) (by decide)
      · exact hnext
    · split
      · exact hnext
      · exact clears_paySettlement hnext
    · unfold reject
      split
      · rename_i hunpaid
        exact clears_updateFound hnext rfl (by rcases hunpaid with h | h <;> rw [h] <;> rfl)
          (by decide)
      · exact hnext
    · exact hnext

theorem clears_program (svc : WalletBalance.Service) (caller : Caller) :
    Clears .first (program svc caller) := by
  cases caller with
  | requestSettlement userId dto => exact clears_requestOfUser ⟨rfl, rfl⟩ dto
  | paySettlement settlementId dto => exact clears_paySettlement rfl
  | updateSettlementStatus settlementId dto => exact clears_updateSettlementStatus rfl

theorem follows_program (svc : WalletBalance.Service) (caller : Caller) :
    Follows protocol .first (program svc caller) :=
  (clears_program svc caller).mono (fun _ _ _ => trivial) fun _ _ _ => trivial

end Programs

end Livora.SettlementStages
