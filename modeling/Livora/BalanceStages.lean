import Livora.BalanceReports

/-! What a program knows while it reads a balance: the user, the rows of what he has
redeemed, and the cents that the node has shown, in this order. Any program that reads
a balance among other calls keeps to these stages. -/

namespace Livora.BalanceStages

open DoubleRounding EffectPrograms EffectPrograms.Action StoreBooks WalletBalance
open BackOffice (User)
open PinVerification (truthy)

structure Reading where
  /-- The user, with the id he was looked up by. -/
  user : Option (String × User)
  spent : Option (List RedemptionTransaction)
  shown : Option ℕ
deriving DecidableEq

def Reading.first : Reading := ⟨none, none, none⟩

def Reading.Allowed (b : Reading) : Op → Prop
  | .completedRedemptions id => ∃ userId user, b.user = some (userId, user) ∧ id = user.id
  | .chainBalance a => ∃ userId user rows, b.user = some (userId, user) ∧
      truthy user.walletAddress = some a ∧ b.spent = some rows
  | _ => True

def Reading.next (b : Reading) (i : Op) (r : Except Failure (Reply i)) : Reading :=
  match i, r with
  | .findUser userId, .ok (some user) => ⟨some (userId, user), none, none⟩
  | .completedRedemptions _, .ok rows => { b with spent := some rows, shown := none }
  | .chainBalance _, .ok cents => { b with shown := some cents }
  | _, _ => b

def reported (rows : List RedemptionTransaction) (shown : ℕ) : ℕ :=
  toFixed2 (max 0
    (fl (parseCents shown - sumNumbers (rows.map RedemptionTransaction.tokenAmount))))

/-- The balance is that of the user, and the chain's where it has shown one. -/
structure Reported (b : Reading) (userId : String) (cents : ℕ) : Prop where
  user : ∃ user, b.user = some (userId, user)
  chain : ∀ rows shown, b.spent = some rows → b.shown = some shown → 0 < shown →
    cents = reported rows shown

def Estimating : Op → Prop
  | .receivedBatches _ => True
  | .batchRequests _ => True
  | .materialRate _ => True
  | .householdRequests _ => True
  | .findStoreProfile _ => True
  | .receivedTransfers _ => True
  | .sentTransfers _ => True
  | .completedPayments _ => True
  | _ => False

def Ledger (i : Op) : Prop := Estimating i ∨ ∃ storeId, i = .storeRedemptions storeId

def Balance : Op → Prop
  | .findUser _ => True
  | .completedRedemptions _ => True
  | .chainBalance _ => True
  | i => Ledger i

theorem balance_of_ledger {i : Op} (h : Ledger i) : Balance i := by
  rcases h with h | ⟨storeId, rfl⟩
  · cases i <;> first | trivial | exact .inl h
  · exact .inr ⟨storeId, rfl⟩

theorem next_ledger {b : Reading} {i : Op} (h : Ledger i) (r : Except Failure (Reply i)) :
    b.next i r = b := by
  rcases h with h | ⟨storeId, rfl⟩
  · cases i <;> first | rfl | exact False.elim h
  · rfl

theorem allowed_ledger {b : Reading} {i : Op} (h : Ledger i) : b.Allowed i := by
  rcases h with h | ⟨storeId, rfl⟩
  · cases i <;> trivial
  · trivial

section Estimates

variable {svc : Service}

theorem only_batchTotal (mats : RewardStrategies.NumberRecord) (total : ℚ) :
    Only Estimating (batchTotal mats total) := by
  induction mats generalizing total with
  | nil => exact only_pure _
  | cons entry rest ih => exact only_bind (only_perform trivial) fun _ => ih _

theorem only_collectorEarned (batches : List Batch) (total : ℚ) :
    Only Estimating (collectorEarned batches total) := by
  induction batches generalizing total with
  | nil => exact only_pure _
  | cons b rest ih =>
    exact only_bind (only_batchTotal _ _) fun _ => only_bind (only_perform trivial) fun _ => ih _

theorem only_agreedRate (rates : RewardStrategies.NumberRecord) (mat : String) :
    Only Estimating (agreedRate svc rates mat) := by
  unfold agreedRate
  split
  · exact only_pure _
  · exact only_bind (only_perform trivial) fun _ => only_pure _

theorem only_requestTotal (rates weights : RewardStrategies.NumberRecord) (total : ℚ) :
    Only Estimating (requestTotal svc rates weights total) := by
  induction weights generalizing total with
  | nil => exact only_pure _
  | cons entry rest ih => exact only_bind (only_agreedRate _ _) fun _ => ih _

theorem only_requestEarned (r : CollectionRequest) : Only Estimating (requestEarned svc r) := by
  unfold requestEarned
  split
  · exact only_pure _
  · exact only_bind (only_requestTotal _ _ _) fun _ => only_pure _

theorem only_householdEarned (rs : List CollectionRequest) (total : ℚ) :
    Only Estimating (householdEarned svc rs total) := by
  induction rs generalizing total with
  | nil => exact only_pure _
  | cons r rest ih => exact only_bind (only_requestEarned r) fun _ => ih _

theorem only_storeEarned (userId : String) : Only Ledger (storeEarned userId) := by
  refine only_bind (only_perform (.inl trivial)) fun found => ?_
  split
  · exact only_pure _
  · exact only_bind (only_perform (.inr ⟨_, rfl⟩)) fun _ => only_pure _

theorem only_roleEarned (user : User) : Only Ledger (roleEarned svc user) := by
  unfold roleEarned
  split
  · refine only_bind (only_perform (.inl trivial)) fun batches => ?_
    exact (only_collectorEarned batches 0).mono fun i => .inl
  · refine only_bind (only_perform (.inl trivial)) fun reqs => ?_
    exact (only_householdEarned reqs 0).mono fun i => .inl
  · exact only_storeEarned _
  · exact only_pure _

theorem only_ledgerBalance (user : User) (totalSpent : ℚ) :
    Only Ledger (ledgerBalance svc user totalSpent) := by
  refine only_bind (only_roleEarned user) fun earned => ?_
  refine only_bind (only_perform (.inl trivial)) fun received => ?_
  refine only_bind (only_perform (.inl trivial)) fun sent => ?_
  exact only_bind (only_perform (.inl trivial)) fun payments => only_pure _

theorem only_getBalance (userId : String) : Only Balance (getBalance svc userId) := by
  refine only_bind (only_perform trivial) fun found => ?_
  cases found with
  | none => exact only_throw _
  | some user =>
    dsimp only
    split
    · exact only_pure _
    · refine only_bind (only_perform trivial) fun rows => ?_
      refine only_bind ?_ fun onChain => ?_
      · unfold onChainBalance
        split
        · exact only_recover (only_bind (only_perform trivial) fun _ => only_pure _)
        · exact only_pure _
      · split
        · exact only_pure _
        · exact (only_ledgerBalance user _).mono fun _ => balance_of_ledger

end Estimates

/-! ### A program that reads a balance -/

section Programs

variable {σ τ : Type} {P : Protocol σ Op fun i => Except Failure (Reply i)} {svc : Service}
  {read : σ → Reading} {rest : σ → τ} {s : σ}

/-- The protocol leaves the calls of a balance to the reading. -/
def Reads (P : Protocol σ Op fun i => Except Failure (Reply i)) (read : σ → Reading)
    (rest : σ → τ) : Prop :=
  ∀ s i, Balance i → ((read s).Allowed i → P.Allowed s i) ∧
    ∀ r, read (P.next s i r) = (read s).next i r ∧ rest (P.next s i r) = rest s

theorem obeys_ledger (hreads : Reads P read rest) {α : Type} {a : Work α} (h : Only Ledger a) :
    Obeys P (fun t _ => read t = read s ∧ rest t = rest s) s a := by
  unfold Only at h
  unfold Obeys
  generalize a.run = p at h ⊢
  induction p generalizing s with
  | done x => exact ⟨rfl, rfl⟩
  | call i k ih =>
    obtain ⟨hallowed, hnext⟩ := hreads s i (balance_of_ledger h.1)
    refine ⟨hallowed (allowed_ledger h.1), fun r => ?_⟩
    obtain ⟨hread, hrest⟩ := hnext r
    rw [next_ledger h.1] at hread
    exact (ih r (h.2 r)).mono fun t _ ht => ⟨ht.1.trans hread, ht.2.trans hrest⟩

theorem obeys_onChainBalance (hreads : Reads P read rest) {a : String}
    (ha : (read s).Allowed (.chainBalance a)) (hshown : (read s).shown = none) :
    Obeys P (fun t x => rest t = rest s ∧ (read t).user = (read s).user ∧
      (read t).spent = (read s).spent ∧ ∀ onChain, x = .ok onChain →
        ∀ shown, (read t).shown = some shown → onChain = parseCents shown) s
      (onChainBalance svc a) := by
  unfold onChainBalance
  split
  · obtain ⟨hallowed, hnext⟩ := hreads s (.chainBalance a) trivial
    rw [obeys_recover, obeys_bind, call, obeys_perform]
    refine ⟨hallowed ha, fun text => ?_, fun e => ?_⟩
    · obtain ⟨hread, hrest⟩ := hnext (.ok text)
      simp only [obeys_pure]
      rw [hread, hrest]
      refine ⟨rfl, rfl, rfl, fun onChain hx shown ht => ?_⟩
      cases hx
      cases ht
      rfl
    · obtain ⟨hread, hrest⟩ := hnext (.error e)
      simp only
      rw [hread, hrest]
      refine ⟨rfl, rfl, rfl, fun onChain _ shown ht => ?_⟩
      change (read s).shown = some shown at ht
      rw [hshown] at ht
      cases ht
  · rw [obeys_pure]
    refine ⟨rfl, rfl, rfl, fun onChain _ shown ht => ?_⟩
    rw [hshown] at ht
    cases ht

theorem obeys_balanceOf (hreads : Reads P read rest) {userId wallet : String} {user : User}
    (huser : (read s).user = some (userId, user))
    (hwallet : truthy user.walletAddress = some wallet) :
    Obeys P (fun t x => rest t = rest s ∧ ∀ cents, x = .ok cents →
      Reported (read t) userId cents) s (balanceOf svc user wallet) := by
  obtain ⟨hallowed, hnext⟩ := hreads s (.completedRedemptions user.id) trivial
  refine obeys_call.mpr ⟨hallowed ⟨userId, user, huser, rfl⟩, fun rows => ?_, fun e => ?_⟩
  · obtain ⟨hread, hrest⟩ := hnext (.ok rows)
    have hspent : (read (P.next s (.completedRedemptions user.id) (.ok rows))).spent =
        some rows := by
      rw [hread]
      rfl
    have huser' : (read (P.next s (.completedRedemptions user.id) (.ok rows))).user =
        some (userId, user) := by
      rw [hread]
      exact huser
    simp only
    rw [obeys_bind]
    refine (obeys_onChainBalance hreads ⟨userId, user, rows, huser', hwallet, hspent⟩
      (by rw [hread]; rfl)).mono ?_ ?_
    · rintro t onChain ⟨ht, htuser, htspent, hvalue⟩
      rw [hspent] at htspent
      rw [huser'] at htuser
      simp only
      split
      · rw [obeys_pure]
        refine ⟨ht.trans hrest, fun cents hcents => ⟨⟨user, htuser⟩, ?_⟩⟩
        intro rows' shown hrows' hshown _
        rw [htspent] at hrows'
        cases hrows'
        cases hcents
        rw [hvalue onChain rfl shown hshown]
        rfl
      · rename_i hnone
        refine (obeys_ledger hreads (only_ledgerBalance user _)).mono ?_ ?_
        · rintro u cents ⟨huread, hurest⟩
          refine ⟨hurest.trans (ht.trans hrest), fun cents' _ => ⟨⟨user, huread ▸ htuser⟩, ?_⟩⟩
          -- the node has shown nothing, or zero
          intro rows' shown _ hshown hpos
          rw [huread] at hshown
          rw [hvalue onChain rfl shown hshown] at hnone
          exact absurd (CentAmounts.parseCents_pos.mpr hpos) hnone
        · rintro u e ⟨-, hurest⟩
          exact ⟨hurest.trans (ht.trans hrest), fun cents hcents => by cases hcents⟩
    · rintro t e ⟨ht, -⟩
      exact ⟨ht.trans hrest, fun cents hcents => by cases hcents⟩
  · exact ⟨(hnext (.error e)).2, fun cents hcents => by cases hcents⟩

theorem obeys_getBalance (hreads : Reads P read rest) (userId : String) :
    Obeys P (fun t x => rest t = rest s ∧ ∀ cents, x = .ok cents →
      Reported (read t) userId cents) s (getBalance svc userId) := by
  obtain ⟨hallowed, hnext⟩ := hreads s (.findUser userId) trivial
  refine obeys_call.mpr ⟨hallowed trivial, fun found => ?_, fun e => ?_⟩
  · obtain ⟨hread, hrest⟩ := hnext (.ok found)
    cases found with
    | none => exact ⟨hrest, fun cents hcents => by cases hcents⟩
    | some user =>
      have huser : (read (P.next s (.findUser userId) (.ok (some user)))).user =
          some (userId, user) := by
        rw [hread]
        rfl
      simp only
      split
      · refine ⟨hrest, fun cents _ => ⟨⟨user, huser⟩, fun rows shown hrows => ?_⟩⟩
        rw [hread] at hrows
        cases hrows
      · rename_i wallet hwallet
        refine (obeys_balanceOf hreads huser hwallet).mono ?_ ?_
        · exact fun t x ht => ⟨ht.1.trans hrest, ht.2⟩
        · exact fun t e ht => ⟨ht.1.trans hrest, ht.2⟩
  · exact ⟨(hnext (.error e)).2, fun cents hcents => by cases hcents⟩

end Programs

end Livora.BalanceStages
