import Livora.Payments
import Livora.ProgramPools

/-! What the programs of the back office may do at each stage: a transaction is
sent under the number read for it, tokens are asked for only on an order known to
be paid, an order is completed on a verified notification that reports it paid,
and opened after the check of the daily limit. -/

namespace Livora.OrderStages

open DoubleRounding EffectPrograms EffectPrograms.Action ProgramPools JobQueues SequencedLedgers
open BackOffice BlockchainJobs Payments
open PinVerification (Failure)

structure Stage where
  /-- The number read for a movement that has not been sent yet. -/
  ticket : Option (Movement × Ticket Guard)
  /-- An order the program has seen completed, or a job that mints for it. -/
  entitled : Option String
  notification : Option IPNVerificationResult
  /-- The orders that the daily limit counted. -/
  checked : Option (List PaymentTransaction)
deriving DecidableEq

def Stage.first : Stage := ⟨none, none, none, none⟩

def totalCents (rows : List PaymentTransaction) : ℕ :=
  (rows.map fun row => row.amountPen.cents).sum

/-- A new order that keeps the daily limit with those it counted. -/
structure Opened (rows : List PaymentTransaction) (row : PaymentTransaction) : Prop where
  status : row.status = .pending
  counted : row.counted = rows.map PaymentTransaction.purchaseNumber
  within : totalCents rows + row.amountPen.cents ≤ 50000

theorem sum_value (rows : List PaymentTransaction) :
    (rows.map fun row => row.amountPen.value).sum = totalCents rows / 100 := by
  induction rows with
  | nil => simp [totalCents]
  | cons row rows ih =>
    simp only [totalCents, List.map_cons, List.sum_cons] at ih ⊢
    rw [ih, Soles.value]
    push_cast
    ring

theorem within_limit {rows : List PaymentTransaction} {x : Double} (hx : 10 ≤ x.val)
    (h : fl (dailyTotal rows + x.val) ≤ 500) :
    totalCents rows + (Soles.ofNumber x).cents ≤ 50000 := by
  have hfl : x.val = fl x.toDecimal.value := Double.ofRat?_eq_some.mp (Double.parse_toDecimal x)
  have hdecimal : (1 - 1 / 2 ^ 53) * x.toDecimal.value ≤ x.val := by
    rw [hfl]
    exact mul_le_fl (normal_of_one_le_fl (by rw [← hfl]; linarith))
  have hcents : ((Soles.ofNumber x).cents : ℚ) ≤ 100 * x.toDecimal.value + 1 / 2 := by
    have hpos : (0 : ℚ) ≤ x.toDecimal.value := by
      have hnormal := normal_of_one_le_fl (x := x.toDecimal.value) (by rw [← hfl]; linarith)
      exact (by positivity : (0 : ℚ) ≤ 2 ^ (-1022 : ℤ)).trans hnormal
    have hfloor : 0 ≤ ⌊100 * x.toDecimal.value + 1 / 2⌋ := Int.floor_nonneg.mpr (by linarith)
    have hcast : ((Soles.ofNumber x).cents : ℚ) = ⌊100 * x.toDecimal.value + 1 / 2⌋ := by
      exact_mod_cast Int.toNat_of_nonneg hfloor
    rw [hcast]
    exact Int.floor_le _
  have htotal : (1 - 1 / 2 ^ 53) * ((totalCents rows : ℚ) / 100) ≤ dailyTotal rows := by
    unfold dailyTotal
    rw [sum_value]
    rcases Nat.eq_zero_or_pos (totalCents rows) with hzero | hpos
    · simp [hzero]
    · refine mul_le_fl ?_
      have hone : (1 : ℚ) ≤ totalCents rows := by exact_mod_cast hpos
      have hsmall : (2 : ℚ) ^ (-1022 : ℤ) ≤ 2 ^ (-7 : ℤ) :=
        zpow_le_zpow_right₀ (by norm_num) (by norm_num)
      refine hsmall.trans ?_
      norm_num
      linarith
  have hsum : (1 - 1 / 2 ^ 53) * (dailyTotal rows + x.val) ≤ 500 := by
    refine (mul_le_fl ?_).trans h
    have hnonneg : (0 : ℚ) ≤ dailyTotal rows := le_trans (by positivity) htotal
    have hsmall : (2 : ℚ) ^ (-1022 : ℤ) ≤ 2 ^ (0 : ℤ) :=
      zpow_le_zpow_right₀ (by norm_num) (by norm_num)
    refine hsmall.trans ?_
    rw [zpow_zero]
    linarith
  by_contra hlarge
  have hcast : (50001 : ℚ) ≤ totalCents rows + (Soles.ofNumber x).cents := by
    exact_mod_cast (by omega : 50001 ≤ totalCents rows + (Soles.ofNumber x).cents)
  clear * - hdecimal hcents htotal hsum hcast
  norm_num at *
  linarith

def Allowed (s : Stage) : Op → Prop
  | .submit m t => s.ticket = some (m, t)
  | .readNumber m _ => ∀ order, m.order = some order → s.entitled = some order
  | .add data _ => ∀ order, data.mintsFor = some order → s.entitled = some order
  | .completePayment order v => s.notification = some v ∧ v.isPaid = true ∧ v.orderId = order
  | .createPayment row => ∃ rows, s.checked = some rows ∧ Opened rows row
  | _ => True

def next (s : Stage) (i : Op) (r : Except Failure (Reply i)) : Stage :=
  match i, r with
  | .readNumber m account, .ok number => { s with ticket := some (m, ⟨account, number⟩) }
  | .submit _ _, _ => { s with ticket := none }
  | .take _, .ok (some job) => { s with entitled := job.data.mintsFor }
  | .verifyIpn _, .ok v => { s with notification := some v }
  | .completePayment order _, .ok _ => { s with entitled := some order }
  | .findPayment _, .ok (some payment) =>
    if payment.row.status = .completed then
      { s with entitled := some payment.row.purchaseNumber }
    else s
  | .completedSince _ _, .ok rows => { s with checked := some rows }
  | _, _ => s

def protocol : Protocol Stage Op fun i => Except Failure (Reply i) where
  Allowed := Allowed
  next := next

/-! ### Jobs -/

section Jobs

variable {s : Stage} {svc : Service} {m : Movement}

abbrev Keeping {α : Type} (s : Stage) (a : Work α) : Prop := Follows protocol s a

theorem keeping_mintEcoTokens (h : ∀ order, m.order = some order → s.entitled = some order) :
    Keeping s (mintEcoTokens m) :=
  follows_call trivial fun _ => follows_call h fun _ => follows_perform rfl

theorem keeping_executeDelegatedTransfer {fromWallet : String} {nonce : ℕ}
    (h : s.ticket = some (m, ⟨.nonce fromWallet, nonce⟩)) :
    Keeping s (executeDelegatedTransfer m fromWallet nonce) :=
  follows_call trivial fun _ => follows_call trivial fun _ => follows_perform h

theorem keeping_executeSubsidizedTransfer (account : String) (h : m.order = none) :
    Keeping s (executeSubsidizedTransfer m account) := by
  refine follows_call (fun order horder => ?_) fun _ => follows_call trivial fun _ =>
    follows_call trivial fun _ => follows_perform rfl
  rw [h] at horder
  cases horder

theorem keeping_vaultKey (userId missing : String) : Keeping s (vaultKey userId missing) := by
  refine follows_bind ?_ fun vault t => ?_
  · unfold readVault
    split
    · exact follows_pure _
    · exact follows_perform trivial
  · split
    · exact follows_throw _
    · exact follows_pure _

theorem keeping_decrypt (key : String) : Keeping s (decrypt svc key) := by
  unfold decrypt
  split
  · exact follows_throw _
  · exact follows_pure _

theorem keeping_hashOf (receipt : Option String) (missing : String) :
    Keeping s (hashOf receipt missing) := by
  unfold hashOf
  split
  · exact follows_throw _
  · exact follows_pure _

theorem keeping_recordMint (purchaseNumber : String) (receipt : Option String) :
    Keeping s (recordMint purchaseNumber receipt) := by
  unfold recordMint
  split
  · exact follows_perform trivial
  · exact follows_pure _

theorem keeping_mintFailed (job : Job JobData) (purchaseNumber : String) (e : Failure) :
    Keeping s (mintFailed job purchaseNumber e) := by
  unfold mintFailed
  split
  · exact follows_call trivial fun _ => follows_throw _
  · exact follows_throw _

theorem obeys_signable (fromWallet toWallet : String) :
    Obeys protocol (fun t x => ∀ y, x = .ok y → t = s) s (signable svc fromWallet toWallet) := by
  unfold signable
  split <;> exact fun _ _ => rfl

theorem keeping_processRedemptionTransfer (n : ℕ) (redemptionId fromUserId fromWallet
    toWallet : String) (tokenAmount : ℚ) : Keeping s (processRedemptionTransfer svc n redemptionId
      fromUserId fromWallet toWallet tokenAmount) := by
  refine follows_bind (keeping_vaultKey _ _) fun key t => ?_
  refine follows_bind (keeping_decrypt key) fun _ t => ?_
  refine follows_call (fun order horder => by cases horder) fun nonce => ?_
  refine follows_after (obeys_signable fromWallet toWallet) fun _ t ht => ?_
  subst ht
  refine follows_bind (keeping_executeDelegatedTransfer rfl) fun receipt t => ?_
  refine follows_bind (keeping_hashOf receipt _) fun txHash t => ?_
  exact follows_call trivial fun _ => follows_perform trivial

theorem keeping_processSettlementTransfer (n : ℕ) (settlementId fromStoreUserId
    toWallet : String) (tokenAmount : ℚ) : Keeping s (processSettlementTransfer svc n settlementId
      fromStoreUserId toWallet tokenAmount) := by
  refine follows_bind (keeping_vaultKey _ _) fun key t => ?_
  refine follows_bind (keeping_decrypt key) fun account t => ?_
  refine follows_bind (keeping_executeSubsidizedTransfer account rfl) fun receipt t => ?_
  exact follows_bind (keeping_hashOf receipt _) fun _ t => follows_pure _

theorem keeping_processRedemptionRefundTransfer (n : ℕ) (redemptionId fromStoreUserId
    toHouseholdUserId toWallet : String) (tokenAmount : ℚ) :
    Keeping s (processRedemptionRefundTransfer svc n redemptionId fromStoreUserId
      toHouseholdUserId toWallet tokenAmount) := by
  refine follows_bind (keeping_vaultKey _ _) fun key t => ?_
  split
  · exact follows_throw _
  refine follows_bind (keeping_decrypt key) fun account t => ?_
  refine follows_bind (keeping_executeSubsidizedTransfer account rfl) fun receipt t => ?_
  refine follows_bind (keeping_hashOf receipt _) fun txHash t => ?_
  exact follows_call trivial fun _ => follows_perform trivial

theorem keeping_process (n : ℕ) (job : Job JobData) (h : s.entitled = job.data.mintsFor) :
    Keeping s (process svc n job) := by
  unfold process
  split
  · rename_i purchaseNumber hdata
    rw [hdata] at h
    refine follows_rescue ?_ fun e t => keeping_mintFailed job purchaseNumber e
    exact follows_bind (keeping_mintEcoTokens fun order horder => h.trans horder)
      fun receipt t => keeping_recordMint purchaseNumber receipt
  · exact keeping_processRedemptionTransfer n _ _ _ _ _
  · exact keeping_processSettlementTransfer n _ _ _ _
  · exact keeping_processRedemptionRefundTransfer n _ _ _ _ _
  · exact follows_throw _

theorem keeping_attempt (n : ℕ) : Keeping s (attempt svc n) := by
  refine follows_call trivial fun taken => ?_
  cases taken with
  | none => exact follows_pure _
  | some job =>
    refine follows_bind ?_ fun ok t => follows_perform trivial
    refine follows_rescue ?_ fun e t => follows_pure _
    exact follows_bind (keeping_process n job rfl) fun _ t => follows_pure _

end Jobs

/-! ### Payments -/

section Payments

variable {s : Stage} {svc : Service}

theorem obeys_checkAmount (user : User) (x : Double) :
    Obeys protocol (fun _ r => ∀ y, r = .ok y → 10 ≤ x.val) s (checkAmount user x) := by
  unfold checkAmount
  split
  · exact nofun
  split
  · exact nofun
  · rename_i hmin
    split
    · exact nofun
    · exact fun _ _ => not_lt.mp hmin

theorem keeping_openSession {user : User} {x : Double} {rows : List PaymentTransaction}
    (hchecked : s.checked = some rows)
    (hwithin : totalCents rows + (Soles.ofNumber x).cents ≤ 50000) :
    Keeping s (openSession svc user x rows) := by
  refine follows_call trivial fun stamp => ?_
  refine follows_call ⟨rows, hchecked, rfl, rfl, hwithin⟩ fun _ => ?_
  exact follows_call trivial fun _ => follows_call trivial fun _ => follows_pure _

theorem keeping_createSession (userId : String) (dto : CreatePaymentSessionDto) :
    Keeping s (createSession svc userId dto) := by
  refine follows_call trivial fun found => ?_
  cases found with
  | none => exact follows_throw _
  | some user =>
    refine follows_after (obeys_checkAmount user _) fun _ t hmin => ?_
    refine follows_call trivial fun now => follows_call trivial fun rows => ?_
    split
    · exact follows_throw _
    · rename_i hlimit
      exact keeping_openSession rfl (within_limit hmin (not_lt.mp hlimit))

theorem keeping_mintOrEnqueue {row : PaymentTransaction} {user : User} {walletAddress : String}
    (h : s.entitled = some row.purchaseNumber) :
    Keeping s (mintOrEnqueue svc row user walletAddress) := by
  unfold mintOrEnqueue
  split
  · exact follows_perform fun order horder => h.trans horder
  · refine follows_bind (keeping_mintEcoTokens fun order horder => h.trans horder)
      fun receipt t => ?_
    split
    · exact follows_pure _
    · exact follows_perform trivial

theorem keeping_accredit {row : PaymentTransaction} {user : User}
    (h : s.entitled = some row.purchaseNumber) : Keeping s (accredit svc row user) := by
  unfold accredit
  split
  · exact follows_pure _
  · exact follows_rescue (keeping_mintOrEnqueue h) fun e t =>
      follows_recover (follows_perform trivial)

theorem keeping_confirm {row : PaymentTransaction} {user : User} {v : IPNVerificationResult}
    (hv : s.notification = some v) (hpaid : v.isPaid = true)
    (horder : v.orderId = row.purchaseNumber) :
    Keeping s (confirm svc row user v) := by
  refine follows_call ⟨hv, hpaid, horder⟩ fun _ => ?_
  exact follows_bind (keeping_accredit rfl) fun _ t => follows_perform trivial

theorem keeping_processIzipayIpn (dto : IzipayIpnDto) : Keeping s (processIzipayIpn svc dto) := by
  refine follows_call trivial fun v => follows_call trivial fun found => ?_
  cases found with
  | none => exact follows_throw _
  | some transaction =>
    dsimp only
    split
    · exact follows_pure _
    · rename_i hopen
      split
      · rename_i hpaid
        refine keeping_confirm ?_ hpaid transaction.key.symm
        simp only [protocol, next, if_neg hopen]
      · exact follows_perform trivial

theorem keeping_retryPaymentMint (paymentIdentifier : String) :
    Keeping s (retryPaymentMint svc paymentIdentifier) := by
  refine follows_call trivial fun found => ?_
  cases found with
  | none => exact follows_throw _
  | some payment =>
    dsimp only
    unfold retryMintOf
    split
    · exact follows_throw _
    rename_i hstatus
    split
    · exact follows_pure _
    split
    · exact follows_throw _
    split
    · refine follows_call (fun order horder => ?_) fun _ => follows_call trivial fun _ =>
        follows_pure _
      simp only [protocol, next, if_pos (not_not.mp hstatus)]
      exact horder
    · exact follows_pure _

end Payments

/-! ### The programs of the back office -/

inductive Caller where
  | createSession (userId : String) (dto : CreatePaymentSessionDto)
  | processIzipayIpn (dto : IzipayIpnDto)
  | retryPaymentMint (paymentIdentifier : String)
  | attempt (n : ℕ)

/-- The result of a call, which nothing else depends on, is dropped. -/
def ignoring {α : Type} (a : Work α) : Work Unit := do
  let _ ← a
  pure ()

def program (svc : Service) : Caller → Work Unit
  | .createSession userId dto => ignoring (createSession svc userId dto)
  | .processIzipayIpn dto => processIzipayIpn svc dto
  | .retryPaymentMint paymentIdentifier => ignoring (retryPaymentMint svc paymentIdentifier)
  | .attempt n => attempt svc n

theorem keeping_program (svc : Service) (caller : Caller) :
    Keeping .first (program svc caller) := by
  cases caller with
  | createSession userId dto =>
    exact follows_bind (keeping_createSession userId dto) fun _ t => follows_pure _
  | processIzipayIpn dto => exact keeping_processIzipayIpn dto
  | retryPaymentMint paymentIdentifier =>
    exact follows_bind (keeping_retryPaymentMint paymentIdentifier) fun _ t => follows_pure _
  | attempt n => exact keeping_attempt n

end Livora.OrderStages
