import Livora.KeyedSums
import Livora.ProgramPools
import Livora.RedemptionStages

/-! Confirmations of any number of codes against one database and one chain, in any
order of their calls. Between them codes expire, transactions of the database run out
of time, transfers are applied and wallets credited. What a household has redeemed and
the chain has not applied stays covered by its wallet along every run in which each
of its confirmations went by a balance of the chain, and the node never showed more than
there was. -/

namespace Livora.RedemptionRaces

open DoubleRounding KeyedSums TransitionRuns EffectPrograms ProgramPools ProgramPools.System StoreBooks
open BalanceStages RedemptionStages StoreRedemptions CentAmounts
open BackOffice (User)
open BalanceReports (waiting)
open PinVerification (truthy Delivery)

inductive Outside where
  /-- The code was not confirmed in time. -/
  | expire (qrCodeRef : String)
  /-- The database ends a transaction that takes too long. -/
  | timeout (tx : ℕ)
  /-- The transfer of a redemption is applied on the chain. -/
  | transfer (qrCodeRef target : String)
  | credit (wallet : String) (amount : ℕ)
  | debit (wallet : String) (amount : ℕ)
  /-- The other tables change. -/
  | amend (books : Books)

def expired (qrCodeRef : String) (row : RedemptionTransaction) : RedemptionTransaction :=
  if row.qrCodeRef = qrCodeRef ∧ row.status = .pending then { row with status := .expired }
  else row

/-- The redemption whose transfer can be applied, with the wallet it is taken from. -/
def transferable (w : World) (qrCodeRef : String) : Option (RedemptionTransaction × String) := do
  let row ← w.findRedemption qrCodeRef
  let userId ← row.userId
  let user ← w.findUser userId
  let source ← truthy user.walletAddress
  if row.status = .completed ∧ row.applied = false ∧ stroops row.tokenAmount ≤ w.chain source then
    some (row, source)
  else none

def outside (w : World) : Outside → Option World
  | .expire qrCodeRef =>
    if w.rowLock qrCodeRef = none then
      some { w with redemptions := w.redemptions.map (expired qrCodeRef) }
    else none
  | .timeout tx => some (w.close tx)
  | .transfer qrCodeRef target => (transferable w qrCodeRef).map fun found =>
      w.transferRedemption qrCodeRef found.2 target found.1.tokenAmount
  | .credit wallet amount => some (w.credit wallet amount)
  | .debit wallet amount => if amount ≤ w.chain wallet then some (w.debit wallet amount) else none
  | .amend books => some { w with books := books }

def system (svc : WalletBalance.Service) : System Caller World Outcome Outside Stage Op
    (fun i => Except Failure (Reply i)) (Except Failure RedemptionTransaction) where
  program caller := (program svc caller).run
  serve := World.serve
  outside := outside
  protocol := protocol
  first := .first

abbrev Race := Pool World
  (Task Stage Op (fun i => Except Failure (Reply i)) (Except Failure RedemptionTransaction))

abbrev RaceEvent := Event Caller Outcome Outside

def quiescent (w : World) : Race := ⟨w, fun _ => none⟩

/-! ### What waits, and what covers it -/

/-- What a row adds to the redemptions of the user that wait for the chain. -/
def owed (userId : String) (row : RedemptionTransaction) : ℚ :=
  if row.userId = some userId ∧ row.status = .completed ∧ row.applied = false then row.tokenAmount
  else 0

theorem sum_waiting (w : World) (userId : String) :
    (waiting w userId).sum = (w.redemptions.map (owed userId)).sum := by
  unfold waiting World.completedRedemptions
  induction w.redemptions with
  | nil => rfl
  | cons row rows ih =>
    rw [List.map_cons, List.sum_cons, ← ih]
    by_cases hcompleted : row.userId = some userId ∧ row.status = .completed
    · rw [List.filter_cons_of_pos (by simpa using hcompleted)]
      cases happlied : row.applied with
      | false => simp [owed, hcompleted, happlied]
      | true => simp [owed, happlied]
    · rw [List.filter_cons_of_neg (by simpa using hcompleted)]
      rw [owed, if_neg fun h => hcompleted ⟨h.1, h.2.1⟩, zero_add]

def Amount (a : ℚ) : Prop := ∃ k : ℕ, a = k / 100 ∧ (k : ℚ) / 100 < 2 ^ 34

theorem Amount.nonneg {a : ℚ} (h : Amount a) : 0 ≤ a := by
  obtain ⟨k, rfl, -⟩ := h
  positivity

theorem owed_nonneg {userId : String} {row : RedemptionTransaction} (h : Amount row.tokenAmount) :
    0 ≤ owed userId row := by
  unfold owed
  split
  · exact h.nonneg
  · exact le_rfl

def funds (w : World) (wallet : String) : ℚ := w.chain wallet / 10 ^ 7

section Coverage

variable (user : User) (wallet : String)

/-- What is left of the wallet when everything that waits has been applied. -/
def slack (w : World) : ℚ := funds w wallet - (waiting w user.id).sum

/-- A completion that has been written can be committed. -/
structure Written (w : World) (tx : ℕ) (c : Completion) : Prop where
  amount : Amount c.amount
  covered : c.userId = user.id →
    w.userLock user.id = some tx ∧ c.amount < 2 ^ 22 ∧ c.amount ≤ slack user wallet w

structure Solvent (w : World) : Prop where
  found : w.findUser user.id = some user
  address : truthy user.walletAddress = some wallet
  /-- No two users have the same wallet. -/
  unique : ∀ id u, w.findUser id = some u → truthy u.walletAddress = some wallet → id = user.id
  keys : (w.redemptions.map RedemptionTransaction.qrCodeRef).Nodup
  amounts : ∀ row ∈ w.redemptions, Amount row.tokenAmount
  small : ∀ row ∈ w.completedRedemptions user.id, row.tokenAmount < 2 ^ 22
  fresh : ∀ tx, w.isOpen tx = true → tx < w.nextTx
  written : ∀ tx c, w.transactions tx = some (some c) → Written user wallet w tx c
  covered : 0 ≤ slack user wallet w

/-- What a program knows while its transaction holds the row of the user. -/
structure Holding (w : World) (tx : ℕ) (b : Reading) : Prop where
  lock : w.userLock user.id = some tx
  spent : ∀ u rows, b.user = some (user.id, u) → b.spent = some rows →
    (waiting w user.id).sum ≤ (rows.map RedemptionTransaction.tokenAmount).sum ∧
    ∀ cents, b.shown = some cents →
      (cents : ℚ) / 100 - (rows.map RedemptionTransaction.tokenAmount).sum ≤ slack user wallet w

structure Knows (w : World) (s : Stage) : Prop where
  row : ∀ row, s.row = some row → Amount row.tokenAmount
  found : ∀ id u, s.reading.user = some (id, u) → w.findUser id = some u
  spent : ∀ rows, s.reading.spent = some rows → ∀ row ∈ rows, Amount row.tokenAmount
  fresh : ∀ tx id, s.locked = some (tx, id) → tx < w.nextTx
  locked : ∀ tx, s.locked = some (tx, user.id) → w.isOpen tx = true →
    Holding user wallet w tx s.reading

structure Respects (w w' : World) : Prop where
  users : w'.users = w.users
  next : w.nextTx ≤ w'.nextTx
  opened : ∀ tx, tx < w.nextTx → w'.isOpen tx = true → w.isOpen tx = true
  locked : ∀ tx, w'.isOpen tx = true → w.userLock user.id = some tx →
    w'.userLock user.id = some tx ∧ (waiting w' user.id).sum ≤ (waiting w user.id).sum ∧
      slack user wallet w ≤ slack user wallet w'

end Coverage

variable {user : User} {wallet : String} {svc : WalletBalance.Service} {w w' : World}
  {st : ℕ → Option Stage} {j : ℕ} {s : Stage} {i : Op} {o : Outcome} {tx : ℕ}

theorem findUser_congr (h : w'.users = w.users) (id : String) : w'.findUser id = w.findUser id := by
  unfold World.findUser
  rw [h]

theorem id_of_findUser {id : String} {u : User} (h : w.findUser id = some u) : u.id = id := by
  simpa using List.find?_some h

theorem Knows.respects (h : Knows user wallet w s) (hr : Respects user wallet w w') :
    Knows user wallet w' s where
  row := h.row
  found id u hu := (findUser_congr hr.users id).trans (h.found id u hu)
  spent := h.spent
  fresh tx id ht := (h.fresh tx id ht).trans_le hr.next
  locked tx ht hopen := by
    have hheld := h.locked tx ht (hr.opened tx (h.fresh tx _ ht) hopen)
    obtain ⟨hlock, hwaits, hslack⟩ := hr.locked tx hopen hheld.lock
    refine ⟨hlock, fun u rows hu hrows => ?_⟩
    obtain ⟨hspent, hshown⟩ := hheld.spent u rows hu hrows
    exact ⟨hwaits.trans hspent, fun cents hcents => (hshown cents hcents).trans hslack⟩

theorem completedRedemptions_congr (h : w'.redemptions = w.redemptions) (userId : String) :
    w'.completedRedemptions userId = w.completedRedemptions userId := by
  unfold World.completedRedemptions
  rw [h]

theorem waiting_congr (h : w'.redemptions = w.redemptions) (userId : String) :
    waiting w' userId = waiting w userId := by
  unfold waiting
  rw [completedRedemptions_congr h]

theorem mem_completedRedemptions {userId : String} {row : RedemptionTransaction} :
    row ∈ w.completedRedemptions userId ↔
      row ∈ w.redemptions ∧ row.userId = some userId ∧ row.status = .completed := by
  simp [World.completedRedemptions]

/-! ### What a step does -/

/-- The step keeps the world solvent and respects the transactions that are open. -/
structure Steps (user : User) (wallet : String) (w w' : World) : Prop where
  solvent : Solvent user wallet w'
  respects : Respects user wallet w w'

structure Untouched (w w' : World) : Prop where
  users : w'.users = w.users
  redemptions : w'.redemptions = w.redemptions
  chain : w'.chain = w.chain

theorem Untouched.slack_eq (h : Untouched w w') : slack user wallet w' = slack user wallet w := by
  unfold slack funds
  rw [h.chain, waiting_congr h.redemptions]

theorem Solvent.moved (h : Solvent user wallet w) (hsame : Untouched w w')
    (hnext : w.nextTx ≤ w'.nextTx)
    (hopened : ∀ tx, w'.isOpen tx = true → tx < w'.nextTx ∧ (tx < w.nextTx → w.isOpen tx = true))
    (hlocked : ∀ tx, w'.isOpen tx = true → w.userLock user.id = some tx →
      w'.userLock user.id = some tx)
    (hwritten : ∀ tx c, w'.transactions tx = some (some c) →
      w.transactions tx = some (some c) ∨ Written user wallet w' tx c) :
    Steps user wallet w w' where
  solvent := {
    found := (findUser_congr hsame.users _).trans h.found
    address := h.address
    unique := fun id u hu => h.unique id u ((findUser_congr hsame.users id).symm.trans hu)
    keys := by
      rw [hsame.redemptions]
      exact h.keys
    amounts := by
      rw [hsame.redemptions]
      exact h.amounts
    small := by
      rw [completedRedemptions_congr hsame.redemptions]
      exact h.small
    fresh := fun tx htx => (hopened tx htx).1
    written := fun tx c hc => by
      rcases hwritten tx c hc with hold | hnew
      · obtain ⟨hamount, hcovered⟩ := h.written tx c hold
        refine ⟨hamount, fun hmine => ?_⟩
        obtain ⟨hlock, hsmall, hslack⟩ := hcovered hmine
        have hopen : w'.isOpen tx = true := by rw [World.isOpen, hc]; rfl
        exact ⟨hlocked tx hopen hlock, hsmall,
          (hsame.slack_eq : slack user wallet w' = slack user wallet w) ▸ hslack⟩
      · exact hnew
    covered := by
      rw [hsame.slack_eq]
      exact h.covered }
  respects := {
    users := hsame.users
    next := hnext
    opened := fun tx hlt hopen => (hopened tx hopen).2 hlt
    locked := fun tx hopen hlock => by
      rw [hsame.slack_eq, waiting_congr hsame.redemptions]
      exact ⟨hlocked tx hopen hlock, le_rfl, le_rfl⟩ }

theorem Solvent.same (h : Solvent user wallet w) (hsame : Untouched w w')
    (hnext : w'.nextTx = w.nextTx) (htx : w'.transactions = w.transactions)
    (hlock : w'.userLock = w.userLock) : Steps user wallet w w' := by
  have hopen (tx : ℕ) : w'.isOpen tx = w.isOpen tx := by rw [World.isOpen, htx]; rfl
  refine h.moved hsame hnext.ge (fun tx ht => ?_) (fun tx _ ht => ?_) fun tx c hc => ?_
  · rw [hopen] at ht
    exact ⟨hnext ▸ h.fresh tx ht, fun _ => ht⟩
  · rw [hlock]
    exact ht
  · rw [htx] at hc
    exact .inl hc

theorem isOpen_close (w : World) (t : ℕ) : (w.close tx).isOpen t = true ↔ t ≠ tx ∧
    w.isOpen t = true := by
  unfold World.isOpen World.close
  by_cases ht : t = tx <;> simp [ht]

theorem Solvent.close (h : Solvent user wallet w) (tx : ℕ) : Steps user wallet w (w.close tx) := by
  refine h.moved ⟨rfl, rfl, rfl⟩ le_rfl (fun t ht => ?_) (fun t ht hlock => ?_) fun t c hc => ?_
  · have hopen := ((isOpen_close w t).mp ht).2
    exact ⟨h.fresh t hopen, fun _ => hopen⟩
  · have hne := ((isOpen_close w t).mp ht).1
    simp [World.close, hlock, hne]
  · refine .inl ?_
    have hne : t ≠ tx := by
      rintro rfl
      simp [World.close] at hc
    simpa [World.close, hne] using hc

theorem Solvent.begin (h : Solvent user wallet w) : Steps user wallet w w.begin := by
  have hopen (t : ℕ) (ht : w.begin.isOpen t = true) : t = w.nextTx ∨ w.isOpen t = true := by
    by_cases hnew : t = w.nextTx
    · exact .inl hnew
    · simpa [World.isOpen, World.begin, hnew] using ht
  refine h.moved ⟨rfl, rfl, rfl⟩ (Nat.le_succ _) (fun t ht => ?_) (fun t _ hlock => hlock)
    fun t c hc => ?_
  · change t < w.nextTx + 1 ∧ (t < w.nextTx → w.isOpen t = true)
    rcases hopen t ht with rfl | hold
    · exact ⟨Nat.lt_succ_self _, fun hlt => absurd hlt (lt_irrefl _)⟩
    · exact ⟨(h.fresh t hold).trans (Nat.lt_succ_self _), fun _ => hold⟩
  · refine .inl ?_
    have hne : t ≠ w.nextTx := by
      rintro rfl
      simp [World.begin] at hc
    simpa [World.begin, hne] using hc

theorem free_some {t : ℕ} : World.free (some t) tx = true ↔ some t = some tx := by
  simp [World.free]

theorem Solvent.lockUser (h : Solvent user wallet w) {userId : String}
    (hfree : World.free (w.userLock userId) tx = true) :
    Steps user wallet w (w.lockUser tx userId) := by
  unfold World.lockUser
  split
  · refine h.moved ⟨rfl, rfl, rfl⟩ le_rfl (fun t ht => ⟨h.fresh t ht, fun _ => ht⟩)
      (fun t ht hlock => ?_) fun t c hc => .inl hc
    change Function.update w.userLock userId (some tx) user.id = some t
    by_cases hid : user.id = userId
    · -- nobody else can have had the lock
      rw [← hid, hlock] at hfree
      rw [← hid, Function.update_self]
      exact (free_some.mp hfree).symm
    · rw [Function.update_of_ne hid]
      exact hlock
  · exact h.same ⟨rfl, rfl, rfl⟩ rfl rfl rfl

theorem Solvent.complete (h : Solvent user wallet w) {c : Completion} (hopen : w.isOpen tx = true)
    (hwritten : Written user wallet w tx c) : Steps user wallet w { w with
      rowLock := Function.update w.rowLock c.qrCodeRef (some tx)
      transactions := Function.update w.transactions tx (some (some c)) } := by
  refine h.moved ⟨rfl, rfl, rfl⟩ le_rfl (fun t ht => ?_) (fun t _ hlock => hlock) fun t c' hc' => ?_
  · have hold : w.isOpen t = true := by
      by_cases hne : t = tx
      · rw [hne]
        exact hopen
      · simpa [World.isOpen, hne] using ht
    exact ⟨h.fresh t hold, fun _ => hold⟩
  · change Function.update w.transactions tx (some (some c)) t = some (some c') at hc'
    by_cases hne : t = tx
    · rw [hne, Function.update_self] at hc'
      cases hc'
      rw [hne]
      exact .inr ⟨hwritten.amount, hwritten.covered⟩
    · rw [Function.update_of_ne hne] at hc'
      exact .inl hc'

theorem Solvent.changed (h : Solvent user wallet w) (husers : w'.users = w.users)
    (hnext : w'.nextTx = w.nextTx)
    (hopened : ∀ tx, w'.isOpen tx = true → w.isOpen tx = true)
    (hwritten : ∀ tx c, w'.transactions tx = some (some c) → w.transactions tx = some (some c))
    (hkeys : (w'.redemptions.map RedemptionTransaction.qrCodeRef).Nodup)
    (hrows : ∀ row ∈ w'.redemptions, Amount row.tokenAmount ∧
      (row.userId = some user.id → row.status = .completed → row.tokenAmount < 2 ^ 22))
    (hlocked : ∀ tx, w'.isOpen tx = true → w.userLock user.id = some tx →
      w'.userLock user.id = some tx ∧ (waiting w' user.id).sum ≤ (waiting w user.id).sum ∧
        slack user wallet w ≤ slack user wallet w')
    (hcovered : 0 ≤ slack user wallet w') : Steps user wallet w w' where
  solvent := {
    found := (findUser_congr husers _).trans h.found
    address := h.address
    unique := fun id u hu => h.unique id u ((findUser_congr husers id).symm.trans hu)
    keys := hkeys
    amounts := fun row hrow => (hrows row hrow).1
    small := fun row hrow => by
      obtain ⟨hrow, huser, hstatus⟩ := mem_completedRedemptions.mp hrow
      exact (hrows row hrow).2 huser hstatus
    fresh := fun tx htx => hnext ▸ h.fresh tx (hopened tx htx)
    written := fun tx c hc => by
      obtain ⟨hamount, hmine⟩ := h.written tx c (hwritten tx c hc)
      refine ⟨hamount, fun huser => ?_⟩
      obtain ⟨hlock, hsmall, hslack⟩ := hmine huser
      obtain ⟨hlock', -, hslack'⟩ := hlocked tx (by rw [World.isOpen, hc]; rfl) hlock
      exact ⟨hlock', hsmall, hslack.trans hslack'⟩
    covered := hcovered }
  respects := {
    users := husers
    next := hnext.ge
    opened := fun tx _ => hopened tx
    locked := hlocked }

theorem Solvent.rows (h : Solvent user wallet w) {row : RedemptionTransaction}
    (hrow : row ∈ w.redemptions) : Amount row.tokenAmount ∧
      (row.userId = some user.id → row.status = .completed → row.tokenAmount < 2 ^ 22) :=
  ⟨h.amounts row hrow, fun huser hstatus =>
    h.small row (mem_completedRedemptions.mpr ⟨hrow, huser, hstatus⟩)⟩

theorem keys_map {f : RedemptionTransaction → RedemptionTransaction}
    (hf : ∀ row, (f row).qrCodeRef = row.qrCodeRef) (rows : List RedemptionTransaction) :
    (rows.map f).map RedemptionTransaction.qrCodeRef =
      rows.map RedemptionTransaction.qrCodeRef := by
  rw [List.map_map]
  exact List.map_congr_left fun row _ => hf row

theorem key_completedBy (c : Completion) (row : RedemptionTransaction) :
    (World.completedBy c row).qrCodeRef = row.qrCodeRef := by
  unfold World.completedBy
  split <;> rfl

theorem owed_completedBy {c : Completion} {row : RedemptionTransaction} (userId : String)
    (hc : Amount c.amount) (hrow : Amount row.tokenAmount) :
    owed userId (World.completedBy c row) ≤ owed userId row +
      if row.qrCodeRef = c.qrCodeRef then (if c.userId = userId then c.amount else 0) else 0 := by
  have hold := @owed_nonneg userId _ hrow
  unfold World.completedBy
  split
  · by_cases huser : c.userId = userId
    · rw [if_pos huser]
      unfold owed at hold ⊢
      split
      · exact le_add_of_nonneg_left hold
      · exact add_nonneg hold hc.nonneg
    · rw [if_neg huser, add_zero, owed, if_neg fun h => huser (Option.some.inj h.1)]
      exact hold
  · rw [add_zero]

theorem Solvent.commit (h : Solvent user wallet w) (tx : ℕ) :
    Steps user wallet w ((w.publish tx).close tx) := by
  by_cases hsome : ∃ c, w.transactions tx = some (some c)
  swap
  · have hnone : w.publish tx = w := by
      unfold World.publish
      split
      · exact absurd ⟨_, ‹_›⟩ hsome
      · rfl
    rw [hnone]
    exact h.close tx
  obtain ⟨c, hc⟩ := hsome
  have hpublish : w.publish tx =
      { w with redemptions := w.redemptions.map (World.completedBy c) } := by
    unfold World.publish
    rw [hc]
  obtain ⟨hamount, hmine⟩ := h.written tx c hc
  have hwaits : (waiting ((w.publish tx).close tx) user.id).sum ≤ (waiting w user.id).sum +
      if c.userId = user.id then c.amount else 0 := by
    rw [sum_waiting, sum_waiting, hpublish]
    change ((w.redemptions.map (World.completedBy c)).map (owed user.id)).sum ≤ _
    rw [List.map_map]
    refine sum_map_le_add (k := c.qrCodeRef) h.keys ?_ fun row hrow =>
      owed_completedBy user.id hamount (h.amounts row hrow)
    split
    · exact hamount.nonneg
    · exact le_rfl
  have hfunds : funds ((w.publish tx).close tx) wallet = funds w wallet := by rw [hpublish]; rfl
  have hclosed (t : ℕ) : ((w.publish tx).close tx).isOpen t = true ↔ t ≠ tx ∧
      w.isOpen t = true := by
    rw [hpublish]
    exact isOpen_close _ t
  refine h.changed (by rw [hpublish]; rfl) (by rw [hpublish]; rfl) (fun t ht =>
    ((hclosed t).mp ht).2) (fun t c' hc' => ?_) ?_ ?_ (fun t ht hlock => ?_) ?_
  · have hne := ((hclosed t).mp (by rw [World.isOpen, hc']; rfl)).1
    rw [hpublish] at hc'
    simpa [World.close, hne] using hc'
  · rw [hpublish]
    change ((w.redemptions.map (World.completedBy c)).map RedemptionTransaction.qrCodeRef).Nodup
    rw [keys_map (key_completedBy c)]
    exact h.keys
  · rw [hpublish]
    intro row hrow
    obtain ⟨old, hold, rfl⟩ := List.mem_map.mp hrow
    unfold World.completedBy
    split
    · exact ⟨hamount, fun huser _ => (hmine (Option.some.inj huser)).2.1⟩
    · exact h.rows hold
  · have hne := ((hclosed t).mp ht).1
    have hother : c.userId ≠ user.id := fun huser =>
      hne (Option.some.inj (hlock.symm.trans (hmine huser).1))
    rw [if_neg hother, add_zero] at hwaits
    refine ⟨?_, hwaits, ?_⟩
    · rw [hpublish]
      simp [World.close, hlock, hne]
    · unfold slack
      rw [hfunds]
      linarith
  · unfold slack
    rw [hfunds]
    have hcovered := h.covered
    unfold slack at hcovered
    split at hwaits
    · have hslack := (hmine ‹_›).2.2
      unfold slack at hslack
      linarith
    · linarith

theorem Solvent.eased (h : Solvent user wallet w) (husers : w'.users = w.users)
    (hnext : w'.nextTx = w.nextTx) (htx : w'.transactions = w.transactions)
    (hlock : w'.userLock = w.userLock)
    (hkeys : (w'.redemptions.map RedemptionTransaction.qrCodeRef).Nodup)
    (hrows : ∀ row ∈ w'.redemptions, Amount row.tokenAmount ∧
      (row.userId = some user.id → row.status = .completed → row.tokenAmount < 2 ^ 22))
    (hwaits : (waiting w' user.id).sum ≤ (waiting w user.id).sum)
    (hslack : slack user wallet w ≤ slack user wallet w') : Steps user wallet w w' := by
  refine h.changed husers hnext (fun t ht => ?_) (fun t c hc => htx ▸ hc) hkeys hrows
    (fun t _ ht => ⟨hlock ▸ ht, hwaits, hslack⟩) (h.covered.trans hslack)
  rwa [World.isOpen, htx] at ht

theorem Solvent.createRedemption (h : Solvent user wallet w) {qrCodeRef storeId : String}
    {amount : ℚ} (hamount : ∀ stored, storedAmount amount = some stored → Amount stored) :
    Steps user wallet w (w.createRedemption qrCodeRef storeId amount) := by
  unfold World.createRedemption
  split
  · rename_i stored hstored
    split
    · exact h.same ⟨rfl, rfl, rfl⟩ rfl rfl rfl
    · rename_i hnew
      have hwaits : waiting { w with
          redemptions := w.redemptions ++ [⟨storeId, none, stored, qrCodeRef, .pending, false⟩] }
          user.id = waiting w user.id := by
        simp [waiting, World.completedRedemptions]
      refine h.eased rfl rfl rfl rfl ?_ (fun row hrow => ?_) ?_ ?_
      · rw [List.map_append, List.nodup_append]
        refine ⟨h.keys, List.nodup_singleton _, fun k hk k' hk' => ?_⟩
        obtain ⟨row, hrow, rfl⟩ := List.mem_map.mp hk
        obtain rfl := List.mem_singleton.mp hk'
        rintro he
        refine hnew ?_
        rw [World.findRedemption, List.find?_isSome]
        exact ⟨row, hrow, by simpa using he⟩
      · rcases List.mem_append.mp hrow with hrow | hrow
        · exact h.rows hrow
        · obtain rfl := List.mem_singleton.mp hrow
          exact ⟨hamount stored hstored, fun huser => by cases huser⟩
      · rw [hwaits]
      · unfold slack
        rw [hwaits]
        exact le_rfl
  · exact h.same ⟨rfl, rfl, rfl⟩ rfl rfl rfl

theorem owed_expired (userId qrCodeRef : String) (row : RedemptionTransaction) :
    owed userId (expired qrCodeRef row) = owed userId row := by
  unfold expired
  split
  · rename_i hpending
    simp [owed, hpending.2]
  · rfl

theorem Solvent.expire (h : Solvent user wallet w) (qrCodeRef : String) :
    Steps user wallet w { w with redemptions := w.redemptions.map (expired qrCodeRef) } := by
  have hwaits : (waiting { w with redemptions := w.redemptions.map (expired qrCodeRef) }
      user.id).sum = (waiting w user.id).sum := by
    rw [sum_waiting, sum_waiting, List.map_map]
    exact congrArg List.sum (List.map_congr_left fun row _ => owed_expired user.id qrCodeRef row)
  refine h.eased rfl rfl rfl rfl ?_ (fun row hrow => ?_) hwaits.le ?_
  · rw [keys_map fun row => by unfold expired; split <;> rfl]
    exact h.keys
  · obtain ⟨old, hold, rfl⟩ := List.mem_map.mp hrow
    unfold expired
    split
    · exact ⟨h.amounts old hold, fun _ hstatus => by cases hstatus⟩
    · exact h.rows hold
  · unfold slack
    rw [hwaits]
    exact le_rfl

theorem Solvent.paid (h : Solvent user wallet w) (husers : w'.users = w.users)
    (hredemptions : w'.redemptions = w.redemptions) (hnext : w'.nextTx = w.nextTx)
    (htx : w'.transactions = w.transactions) (hlock : w'.userLock = w.userLock)
    (hchain : w.chain wallet ≤ w'.chain wallet) : Steps user wallet w w' := by
  refine h.eased husers hnext htx hlock (by rw [hredemptions]; exact h.keys) (fun row hrow => ?_)
    (by rw [waiting_congr hredemptions]) ?_
  · rw [hredemptions] at hrow
    exact h.rows hrow
  · unfold slack funds
    rw [waiting_congr hredemptions]
    gcongr

theorem owed_markApplied {userId : String} (qrCodeRef : String) {row : RedemptionTransaction}
    (hrow : Amount row.tokenAmount) :
    owed userId (World.markApplied qrCodeRef row) ≤ owed userId row := by
  unfold World.markApplied
  split
  · rw [owed, if_neg fun h => by cases h.2.2]
    exact owed_nonneg hrow
  · exact le_rfl

theorem Solvent.transfer (h : Solvent user wallet w) {qrCodeRef target source : String}
    {row : RedemptionTransaction} (hfound : transferable w qrCodeRef = some (row, source)) :
    Steps user wallet w (w.transferRedemption qrCodeRef source target row.tokenAmount) := by
  obtain ⟨row', hrow, hfound⟩ := Option.bind_eq_some_iff.mp hfound
  obtain ⟨userId, huser, hfound⟩ := Option.bind_eq_some_iff.mp hfound
  obtain ⟨owner, howner, hfound⟩ := Option.bind_eq_some_iff.mp hfound
  obtain ⟨source', hsource, hfound⟩ := Option.bind_eq_some_iff.mp hfound
  split at hfound
  swap
  · cases hfound
  rename_i hready
  obtain ⟨hcompleted, hunapplied, hfunds⟩ := hready
  cases hfound
  have hmem : row ∈ w.redemptions := List.mem_of_find?_eq_some hrow
  have hkey : row.qrCodeRef = qrCodeRef := by simpa using List.find?_some hrow
  have hmark (r : RedemptionTransaction) (hr : r ∈ w.redemptions) :
      owed user.id (World.markApplied qrCodeRef r) ≤ owed user.id r :=
    owed_markApplied qrCodeRef (h.amounts r hr)
  have hsum : (waiting (w.transferRedemption qrCodeRef source target row.tokenAmount) user.id).sum =
      (w.redemptions.map (owed user.id ∘ World.markApplied qrCodeRef)).sum := by
    rw [sum_waiting, ← List.map_map]
    rfl
  have hwaits : (w.redemptions.map (owed user.id ∘ World.markApplied qrCodeRef)).sum +
      (if userId = user.id then row.tokenAmount else 0) ≤
        (w.redemptions.map (owed user.id)).sum := by
    refine sum_map_add_le hmem hmark ?_
    have hnone : owed user.id (World.markApplied qrCodeRef row) = 0 := by
      rw [World.markApplied, if_pos hkey, owed, if_neg fun h => by cases h.2.2]
    rw [Function.comp_apply, hnone, zero_add]
    split
    · rename_i hmine
      rw [owed, if_pos ⟨by rw [huser, hmine], hcompleted, hunapplied⟩]
    · exact owed_nonneg (h.amounts row hmem)
  have hchain : (w.chain wallet : ℚ) ≤
      ((w.transferRedemption qrCodeRef source target row.tokenAmount).chain wallet : ℕ) +
        if userId = user.id then row.tokenAmount * 10 ^ 7 else 0 := by
    by_cases hmine : userId = user.id
    · have hsmall := (h.rows hmem).2 (by rw [huser, hmine]) hcompleted
      obtain ⟨k, hk, -⟩ := h.amounts row hmem
      rw [hk] at hsmall
      have hstroops : (stroops row.tokenAmount : ℚ) = row.tokenAmount * 10 ^ 7 := by
        rw [hk, stroops_cents hsmall]
        push_cast
        ring
      rw [if_pos hmine, ← hstroops]
      have hle : w.chain wallet ≤
          (w.transferRedemption qrCodeRef source target row.tokenAmount).chain wallet +
            stroops row.tokenAmount := by
        simp only [World.transferRedemption, World.moveTokens]
        split <;> split <;> omega
      exact_mod_cast hle
    · have hother : wallet ≠ source := by
        rintro rfl
        exact hmine (h.unique userId owner howner hsource)
      rw [if_neg hmine, add_zero]
      have hle : w.chain wallet ≤
          (w.transferRedemption qrCodeRef source target row.tokenAmount).chain wallet := by
        simp [World.transferRedemption, World.moveTokens, hother]
      exact_mod_cast hle
  refine h.eased rfl rfl rfl rfl ?_ (fun r hr => ?_) ?_ ?_
  · change ((w.redemptions.map (World.markApplied qrCodeRef)).map
      RedemptionTransaction.qrCodeRef).Nodup
    rw [keys_map fun row => by unfold World.markApplied; split <;> rfl]
    exact h.keys
  · obtain ⟨old, hold, rfl⟩ := List.mem_map.mp hr
    obtain ⟨hamount, hsmall⟩ := h.rows hold
    unfold World.markApplied
    split
    · exact ⟨hamount, hsmall⟩
    · exact ⟨hamount, hsmall⟩
  · rw [hsum, sum_waiting]
    exact List.sum_le_sum hmark
  · unfold slack funds
    rw [hsum, sum_waiting]
    split at hwaits
    · rw [if_pos ‹_›] at hchain
      have : (w.chain wallet : ℚ) / 10 ^ 7 ≤
          ((w.transferRedemption qrCodeRef source target row.tokenAmount).chain wallet : ℕ) / 10 ^ 7 +
            row.tokenAmount := by
        rw [div_add' _ _ _ (by norm_num)]
        gcongr
      linarith
    · rw [if_neg ‹_›, add_zero] at hchain
      have : (w.chain wallet : ℚ) / 10 ^ 7 ≤
          ((w.transferRedemption qrCodeRef source target row.tokenAmount).chain wallet : ℕ) / 10 ^ 7 := by
        gcongr
      linarith

/-! ### Trusted confirmations -/

/-- The confirmation goes by a balance that the chain has shown, and its numbers are small enough
for binary64. -/
def Trusted (s : Stage) : Prop :=
  ∃ rows ∈ s.reading.spent, ∃ cents ∈ s.reading.shown, ∃ row ∈ s.row, 0 < cents ∧
    rows.length ≤ 2 ^ 20 ∧
      (rows.map RedemptionTransaction.tokenAmount).sum + row.tokenAmount < 2 ^ 21

def TrustedCall (user : User) (wallet : String) (w : World) (s : Stage) (i : Op) (o : Outcome) :
    Prop :=
  match i with
  | .chainBalance a => a = wallet → shown o.answer * 10 ^ 5 ≤ w.chain wallet
  | .completeRedemption _ _ userId _ => userId = user.id → Trusted s
  | _ => True

/-- Nothing but its redemptions is taken from the wallet, the node shows no more than there is, and
the user's codes are completed by trusted confirmations. -/
def TrustedEvent (user : User) (wallet : String) (c : Race) : RaceEvent → Prop
  | .advance j o => ∀ s i, stages c j = some s → pending c j = some i →
      TrustedCall user wallet c.world s i o
  | .outside (.debit a _) => a ≠ wallet
  | _ => True

theorem written_of_checked {qrCodeRef userId : String} {amount stored : ℚ}
    (h : Solvent user wallet w) (hk : Knows user wallet w s) (hchecked : Checked s tx userId amount)
    (hopen : w.isOpen tx = true) (htrusted : userId = user.id → Trusted s)
    (hstored : storedAmount amount = some stored) :
    Written user wallet w tx ⟨qrCodeRef, userId, stored⟩ := by
  obtain ⟨row, dto, hrow, rfl⟩ := hchecked.made
  obtain ⟨k, hk100, hbound⟩ := hk.row row hrow
  obtain ⟨e, he, hextra⟩ := dto.extraAmount_eq
  obtain ⟨cents, hreported, hcovered⟩ := hchecked.covered
  unfold finalAmount at hstored hcovered
  rw [hk100, hextra] at hstored hcovered
  have hvalue := storedAmount_added hbound he hstored
  constructor
  · refine ⟨k + 50 * e, hvalue, ?_⟩
    rw [← hvalue]
    exact (le_abs_self _).trans_lt ((abs_storedAmount_lt hstored).trans (by norm_num))
  · rintro rfl
    obtain ⟨rows, hrows, sh, hsh, row', hrow', hpos, hfew, htotal⟩ := htrusted rfl
    obtain rfl : row' = row := Option.some.inj (hrow'.symm.trans hrow)
    obtain ⟨hlock, hspent⟩ := hk.locked tx hchecked.locked hopen
    obtain ⟨u, hu⟩ := hreported.user
    obtain ⟨-, hleft⟩ := hspent u rows hu hrows
    have hcents : ∀ a ∈ rows.map RedemptionTransaction.tokenAmount, Cents a := by
      intro a ha
      obtain ⟨r, hr, rfl⟩ := List.mem_map.mp ha
      obtain ⟨m, hm, -⟩ := hk.spent rows hrows r hr
      exact ⟨m, hm⟩
    obtain ⟨n, hn⟩ := cents_sum hcents
    have he' : (e : ℚ) ≤ 3 := by exact_mod_cast he
    have hk0 : (0 : ℚ) ≤ k / 100 := by positivity
    have hn0 : (0 : ℚ) ≤ n / 100 := by positivity
    rw [hn, hk100] at htotal
    have hresolved : Resolved (rows.map RedemptionTransaction.tokenAmount) := by
      refine ⟨hcents, by rwa [List.length_map], ?_⟩
      rw [hn]
      linarith
    rw [hreported.chain rows sh hrows hsh hpos] at hcovered
    have hle := sub_ge_of_check hresolved hn (by linarith) he hcovered
    refine ⟨hlock, ?_, ?_⟩
    · rw [hvalue]
      push_cast
      linarith
    · have hleft := hleft sh hsh
      have hcast : ((k + 50 * e : ℕ) : ℚ) / 100 ≤ ((sh - n : ℕ) : ℚ) / 100 := by gcongr
      rw [BalanceReports.natSub_div] at hcast
      rw [hn] at hleft
      rw [hvalue]
      exact hcast.trans (max_le h.covered hleft)

theorem after_steps (h : Solvent user wallet w) (hk : Knows user wallet w s)
    (hallowed : Allowed s i) (htrusted : TrustedCall user wallet w s i o) :
    Steps user wallet w (w.after i o) := by
  have hstay : Steps user wallet w w := h.same ⟨rfl, rfl, rfl⟩ rfl rfl rfl
  unfold World.after
  split
  · split
    · exact World.update_elim hstay (h.lockUser (Bool.and_eq_true_iff.mp ‹_›).2)
    · exact hstay
  · split
    · refine World.update_elim hstay ?_
      unfold World.lockRedemption
      split
      · exact h.same ⟨rfl, rfl, rfl⟩ rfl rfl rfl
      · exact hstay
    · exact hstay
  · split
    · rename_i hopen
      refine World.update_elim hstay ?_
      unfold World.completeRedemption
      split
      · split
        · exact h.complete (c := ⟨_, _, _⟩) hopen
            (written_of_checked h hk hallowed hopen htrusted ‹_›)
        · exact hstay
      · exact hstay
    · exact hstay
  · split
    · exact hstay
    · exact h.close _
  · split
    · exact h.commit _
    · exact h.close _
  · exact h.close _
  · refine World.update_elim hstay ?_
    cases i with
    | createRedemption storeId amount =>
      obtain ⟨dto, rfl⟩ := hallowed
      refine h.createRedemption fun stored hstored => ?_
      obtain ⟨n, hn⟩ := dto.twoDecimals
      have hvalue := storedAmount_text hn hstored
      refine ⟨n, hvalue, ?_⟩
      rw [← hvalue]
      exact (le_abs_self _).trans_lt ((abs_storedAmount_lt hstored).trans (by norm_num))
    | begin => exact h.begin
    | createStoreProfile userId => exact False.elim hallowed
    | createSettlement storeId amount => exact False.elim hallowed
    | _ => exact h.same ⟨rfl, rfl, rfl⟩ rfl rfl rfl

/-! ### Runs -/

theorem after_read (h : w.after i o = w.update o.delivery fun w => w) : w.after i o = w := by
  rw [h]
  exact World.update_elim (p := fun v => v = w) rfl rfl

theorem sum_waiting_le (h : Solvent user wallet w) : (waiting w user.id).sum ≤
    ((w.completedRedemptions user.id).map RedemptionTransaction.tokenAmount).sum := by
  refine List.Sublist.sum_le_sum (List.filter_sublist.map _) fun a ha => ?_
  obtain ⟨row, hrow, rfl⟩ := List.mem_map.mp ha
  exact (h.amounts row (mem_completedRedemptions.mp hrow).1).nonneg

theorem knows_findRedemption {qrCodeRef : String} (h : Solvent user wallet w)
    (hafter : Knows user wallet (w.after (.findRedemption qrCodeRef) o) s) :
    Knows user wallet (w.after (.findRedemption qrCodeRef) o)
      (next s (.findRedemption qrCodeRef) (w.reply (.findRedemption qrCodeRef) o)) := by
  cases hreply : w.reply (.findRedemption qrCodeRef) o with
  | error e => exact hafter
  | ok found =>
    cases found with
    | none => exact hafter
    | some found =>
      obtain ⟨-, hfound⟩ := Delivery.answer_ok hreply
      obtain ⟨row, hrow, hfound⟩ := Option.bind_eq_some_iff.mp hfound
      obtain ⟨store, -, hfound⟩ := Option.bind_eq_some_iff.mp hfound
      cases hfound
      refine ⟨fun r hr => ?_, hafter.found, hafter.spent, hafter.fresh, hafter.locked⟩
      cases hr
      exact h.amounts row (List.mem_of_find?_eq_some hrow)

theorem knows_lockUser {tx : ℕ} {userId : String} (h : Solvent user wallet w)
    (hafter : Knows user wallet (w.after (.lockUser tx userId) o) s) :
    Knows user wallet (w.after (.lockUser tx userId) o)
      (next s (.lockUser tx userId) (w.reply (.lockUser tx userId) o)) := by
  cases hreply : w.reply (.lockUser tx userId) o with
  | error e => exact hafter
  | ok found =>
    cases found with
    | none => exact hafter
    | some u =>
      obtain ⟨hfree, hopen, hdone, hfound⟩ := World.reply_lockUser hreply
      have hworld : w.after (.lockUser tx userId) o =
          { w with userLock := Function.update w.userLock userId (some tx) } := by
        simp [World.after, hopen, hfree, World.update, hdone, Delivery.applied, World.lockUser,
          hfound]
      refine ⟨hafter.row, fun id u hu => (by cases hu), fun rows hrows => (by cases hrows),
        fun t id ht => ?_, fun t ht _ => ?_⟩
      · cases ht
        rw [hworld]
        exact h.fresh tx hopen
      · cases ht
        refine ⟨?_, fun u rows hu => by cases hu⟩
        rw [hworld]
        exact Function.update_self ..

theorem knows_findUser {userId : String}
    (hafter : Knows user wallet (w.after (.findUser userId) o) s) :
    Knows user wallet (w.after (.findUser userId) o)
      (next s (.findUser userId) (w.reply (.findUser userId) o)) := by
  have hworld : w.after (.findUser userId) o = w := after_read rfl
  rw [hworld] at hafter ⊢
  cases hreply : w.reply (.findUser userId) o with
  | error e => exact hafter
  | ok found =>
    cases found with
    | none => exact hafter
    | some u =>
      obtain ⟨-, hfound⟩ := Delivery.answer_ok hreply
      refine ⟨hafter.row, fun id u' hu => ?_, fun rows hrows => (by cases hrows), hafter.fresh,
        fun t ht hopen => ⟨(hafter.locked t ht hopen).lock, fun u rows _ hrows => (by cases hrows)⟩⟩
      cases hu
      exact hfound

theorem knows_completedRedemptions {userId : String} (h : Solvent user wallet w)
    (hallowed : Allowed s (.completedRedemptions userId))
    (hafter : Knows user wallet (w.after (.completedRedemptions userId) o) s) :
    Knows user wallet (w.after (.completedRedemptions userId) o)
      (next s (.completedRedemptions userId) (w.reply (.completedRedemptions userId) o)) := by
  have hworld : w.after (.completedRedemptions userId) o = w := after_read rfl
  rw [hworld] at hafter ⊢
  cases hreply : w.reply (.completedRedemptions userId) o with
  | error e => exact hafter
  | ok rows =>
    obtain ⟨-, rfl⟩ := Delivery.answer_ok hreply
    refine ⟨hafter.row, hafter.found, fun rows hrows row hrow => ?_, hafter.fresh,
      fun t ht hopen => ⟨(hafter.locked t ht hopen).lock, fun u rows hu hrows => ?_⟩⟩
    · cases hrows
      exact h.amounts row (mem_completedRedemptions.mp hrow).1
    · cases hrows
      refine ⟨?_, fun cents hcents => by cases hcents⟩
      obtain ⟨id, u', hu', rfl⟩ := hallowed
      obtain ⟨rfl, rfl⟩ := Prod.mk.inj (Option.some.inj (hu.symm.trans hu'))
      rw [id_of_findUser (hafter.found _ _ hu')]
      exact sum_waiting_le h

theorem knows_chainBalance {a : String} (h : Solvent user wallet w)
    (hallowed : Allowed s (.chainBalance a))
    (htrusted : TrustedCall user wallet w s (.chainBalance a) o)
    (hafter : Knows user wallet (w.after (.chainBalance a) o) s) :
    Knows user wallet (w.after (.chainBalance a) o)
      (next s (.chainBalance a) (w.reply (.chainBalance a) o)) := by
  have hworld : w.after (.chainBalance a) o = w := after_read rfl
  rw [hworld] at hafter ⊢
  refine ⟨hafter.row, hafter.found, hafter.spent, hafter.fresh,
    fun t ht hopen => ⟨(hafter.locked t ht hopen).lock, fun u rows hu hrows => ?_⟩⟩
  obtain ⟨hwaits, -⟩ := (hafter.locked t ht hopen).spent u rows hu hrows
  refine ⟨hwaits, fun cents hcents => ?_⟩
  cases hcents
  obtain ⟨id, u', rows', hu', haddress, -⟩ := hallowed
  obtain ⟨rfl, rfl⟩ := Prod.mk.inj (Option.some.inj (hu.symm.trans hu'))
  have hwallet : a = wallet := by
    rw [Option.some.inj ((hafter.found _ _ hu').symm.trans h.found)] at haddress
    exact Option.some.inj (haddress.symm.trans h.address)
  have hshown : (shown o.answer : ℚ) / 100 ≤ funds w wallet := by
    have hcast : (shown o.answer : ℚ) * 10 ^ 5 ≤ w.chain wallet := by
      exact_mod_cast htrusted hwallet
    unfold funds
    rw [div_le_div_iff₀ (by norm_num) (by norm_num)]
    linarith
  unfold slack
  linarith

theorem knows_next (h : Solvent user wallet w) (hallowed : Allowed s i)
    (htrusted : TrustedCall user wallet w s i o) (hafter : Knows user wallet (w.after i o) s) :
    Knows user wallet (w.after i o) (next s i (w.reply i o)) := by
  cases i with
  | findRedemption qrCodeRef => exact knows_findRedemption h hafter
  | lockUser tx userId => exact knows_lockUser h hafter
  | findUser userId => exact knows_findUser hafter
  | completedRedemptions userId => exact knows_completedRedemptions h hallowed hafter
  | chainBalance a => exact knows_chainBalance h hallowed htrusted hafter
  | _ => exact hafter

theorem outside_steps {c : Race} {d : Outside} (h : Solvent user wallet w)
    (htrusted : TrustedEvent user wallet c (.outside d)) (hw : outside w d = some w') :
    Steps user wallet w w' := by
  cases d with
  | expire qrCodeRef =>
    simp only [outside] at hw
    split at hw
    · cases hw
      exact h.expire qrCodeRef
    · cases hw
  | timeout tx =>
    cases hw
    exact h.close tx
  | transfer qrCodeRef target =>
    obtain ⟨found, hfound, rfl⟩ := Option.map_eq_some_iff.mp hw
    exact h.transfer hfound
  | credit a amount =>
    cases hw
    exact h.paid rfl rfl rfl rfl rfl (Nat.le_add_right _ _)
  | debit a amount =>
    simp only [outside] at hw
    split at hw
    · cases hw
      refine h.paid rfl rfl rfl rfl rfl ?_
      simp [World.debit, Ne.symm htrusted]
    · cases hw
  | amend books =>
    cases hw
    exact h.same ⟨rfl, rfl, rfl⟩ rfl rfl rfl

structure Covered (user : User) (wallet : String) (w : World) (st : ℕ → Option Stage) : Prop where
  solvent : Solvent user wallet w
  knows : ∀ j s, st j = some s → Knows user wallet w s

theorem Covered.update (h : Covered user wallet w st) (hsteps : Steps user wallet w w')
    {t : Option Stage} (ht : ∀ s, t = some s → Knows user wallet w' s) :
    Covered user wallet w' (Function.update st j t) := by
  refine ⟨hsteps.solvent, fun k s hk => ?_⟩
  by_cases hkj : k = j
  · rw [hkj, Function.update_self] at hk
    exact ht s hk
  · rw [Function.update_of_ne hkj] at hk
    exact (h.knows k s hk).respects hsteps.respects

theorem knows_first : Knows user wallet w .first :=
  ⟨fun row h => (by cases h), fun id u h => (by cases h), fun rows h => (by cases h),
    fun tx id h => (by cases h), fun tx h => (by cases h)⟩

/-- Where a run may begin: what waits is covered, and no transaction is open. -/
structure Opening (user : User) (wallet : String) (w : World) : Prop where
  found : w.findUser user.id = some user
  address : truthy user.walletAddress = some wallet
  unique : ∀ id u, w.findUser id = some u → truthy u.walletAddress = some wallet → id = user.id
  keys : (w.redemptions.map RedemptionTransaction.qrCodeRef).Nodup
  amounts : ∀ row ∈ w.redemptions, Amount row.tokenAmount
  small : ∀ row ∈ w.completedRedemptions user.id, row.tokenAmount < 2 ^ 22
  idle : ∀ tx, w.transactions tx = none
  covered : (waiting w user.id).sum ≤ w.chain wallet / 10 ^ 7

/-- In every run of trusted confirmations, what a household has redeemed and the chain has not
applied stays within the tokens of its wallet. -/
theorem redemptions_covered {es : List RaceEvent} {c : Race} (hopening : Opening user wallet w)
    (htrusted : Along (system svc).step (TrustedEvent user wallet) (quiescent w) es)
    (hrun : run (system svc).step (quiescent w) es = some c) :
    (waiting c.world user.id).sum ≤ c.world.chain wallet / 10 ^ 7 := by
  have hcovered : Covered user wallet c.world (stages c) := by
    refine run_stages (S := system svc) (I := Covered user wallet)
      (fun caller => follows_program svc caller) ?_ ?_ ?_ ?_ ?_ ?_ htrusted hrun
    · intro w st j h _
      refine h.update (h.solvent.same ⟨rfl, rfl, rfl⟩ rfl rfl rfl) fun s hs => ?_
      cases hs
      exact knows_first
    · intro c j o s i h hj hi hallowed hC
      have hk := h.knows j s hj
      have hsteps := after_steps h.solvent hk hallowed (hC s i hj hi)
      refine h.update hsteps fun t ht => ?_
      cases ht
      exact knows_next h.solvent hallowed (hC s i hj hi) (hk.respects hsteps.respects)
    · intro c j h _
      exact h.update (h.solvent.same ⟨rfl, rfl, rfl⟩ rfl rfl rfl) fun s hs => by cases hs
    · intro c d w h hC hw
      have hsteps := outside_steps h.solvent hC hw
      exact ⟨hsteps.solvent, fun j s hj => (h.knows j s hj).respects hsteps.respects⟩
    · exact fun j t ht => by cases ht
    · have hnone : ∀ tx, ¬ w.isOpen tx = true := fun tx => by
        rw [World.isOpen, hopening.idle tx]
        decide
      refine ⟨⟨hopening.found, hopening.address, hopening.unique, hopening.keys, hopening.amounts,
        hopening.small, fun tx htx => absurd htx (hnone tx), fun tx c hc => ?_,
        sub_nonneg.mpr hopening.covered⟩, fun j s hj => by cases hj⟩
      rw [show (quiescent w).world = w from rfl, hopening.idle tx] at hc
      cases hc
  exact sub_nonneg.mp hcovered.solvent.covered

/-! ### Runs of one household -/

/-- `TrustedEvent` as a test. -/
def trusted (user : User) (wallet : String) (c : Race) : RaceEvent → Bool
  | .advance j o =>
    match stages c j, pending c j with
    | some _, some (.chainBalance a) =>
      a != wallet || decide (shown o.answer * 10 ^ 5 ≤ c.world.chain wallet)
    | some s, some (.completeRedemption _ _ userId _) => userId != user.id ||
      match s.reading.spent, s.reading.shown, s.row with
      | some rows, some cents, some row => decide (0 < cents ∧ rows.length ≤ 2 ^ 20 ∧
          (rows.map RedemptionTransaction.tokenAmount).sum + row.tokenAmount < 2 ^ 21)
      | _, _, _ => false
    | _, _ => true
  | .outside (.debit a _) => a != wallet
  | _ => true

theorem trusted_of_test {c : Race} {e : RaceEvent} (h : trusted user wallet c e = true) :
    TrustedEvent user wallet c e := by
  cases e with
  | advance j o =>
    intro s i hj hi
    simp only [trusted, hj, hi] at h
    cases i with
    | chainBalance a =>
      intro ha
      simpa [ha] using h
    | completeRedemption tx qrCodeRef userId amount =>
      intro huser
      simp only [huser, bne_self_eq_false, Bool.false_or] at h
      split at h
      · rename_i rows cents row hrows hcents hrow
        exact ⟨rows, hrows, cents, hcents, row, hrow, of_decide_eq_true h⟩
      · cases h
    | _ => trivial
  | outside d =>
    cases d with
    | debit a amount => exact bne_iff_ne.mp h
    | _ => trivial
  | _ => trivial

def answer (balanceStroops : Option ℕ) : Outcome :=
  ⟨.done, balanceStroops, BalanceReports.noRate, ""⟩

def confirmation (j : ℕ) (qrCodeRef : String) (balanceStroops : Option ℕ) (calls : ℕ) :
    List RaceEvent :=
  .start j (.confirmRedemption "household" qrCodeRef (some ⟨true, none, none⟩)) ::
    List.replicate calls (.advance j (answer balanceStroops))

def codeOf (qrCodeRef : String) (tokens : ℕ) : RedemptionTransaction :=
  ⟨"store", none, tokens, qrCodeRef, .pending, false⟩

theorem opening_of_codes {w : World} (husers : w.users = [household, storeUser])
    (hidle : ∀ tx, w.transactions tx = none)
    (hkeys : (w.redemptions.map RedemptionTransaction.qrCodeRef).Nodup)
    (hrows : ∀ row ∈ w.redemptions, ∃ qrCodeRef tokens, tokens < 10 ^ 10 ∧
      row = codeOf qrCodeRef tokens) : Opening household "wallet" w := by
  have hnone : w.completedRedemptions household.id = [] := by
    refine List.filter_eq_nil_iff.mpr fun row hrow => ?_
    obtain ⟨qrCodeRef, tokens, -, rfl⟩ := hrows row hrow
    simp [codeOf]
  constructor
  · rw [World.findUser, husers]
    decide +kernel
  · rfl
  · intro id u hu hwallet
    have hmem : u ∈ [household, storeUser] := husers ▸ List.mem_of_find?_eq_some hu
    have hid := id_of_findUser hu
    rcases List.mem_cons.mp hmem with rfl | hmem
    · exact hid.symm
    · rw [List.mem_singleton.mp hmem] at hwallet
      exact absurd hwallet (by decide +kernel)
  · exact hkeys
  · intro row hrow
    obtain ⟨qrCodeRef, tokens, hlt, rfl⟩ := hrows row hrow
    have hcast : (tokens : ℚ) < 10 ^ 10 := by exact_mod_cast hlt
    refine ⟨100 * tokens, ?_, ?_⟩
    · simp only [codeOf]
      push_cast
      ring
    · push_cast
      norm_num at hcast ⊢
      linarith
  · rw [hnone]
    simp
  · exact hidle
  · rw [waiting, hnone]
    simp only [List.filter_nil, List.map_nil, List.sum_nil]
    positivity

def twoCodes : List RaceEvent :=
  confirmation 0 "qr-1" (some (10 ^ 8)) 14 ++ confirmation 1 "qr-2" (some (10 ^ 8)) 9 ++
    [.outside (.transfer "qr-1" "store-wallet")]

def twoCodesWorld : World := sampleWorld [codeOf "qr-1" 10, codeOf "qr-2" 5] [] (10 ^ 8)

theorem redemptions_covered_twoCodes : ∃ c,
    run (system BalanceReports.sampleService).step (quiescent twoCodesWorld) twoCodes = some c ∧
      (waiting c.world household.id).sum ≤ c.world.chain "wallet" / 10 ^ 7 := by
  obtain ⟨c, hc⟩ := Option.isSome_iff_exists.mp
    (show (run (system BalanceReports.sampleService).step (quiescent twoCodesWorld)
      twoCodes).isSome = true by decide +kernel)
  have hopening : Opening household "wallet" twoCodesWorld := by
    refine opening_of_codes rfl (fun _ => rfl) (by decide +kernel) fun row hrow => ?_
    rcases List.mem_cons.mp hrow with rfl | hrow
    · exact ⟨_, _, by norm_num, rfl⟩
    · exact ⟨_, _, by norm_num, List.mem_singleton.mp hrow⟩
  refine ⟨c, hc, redemptions_covered hopening ?_ hc⟩
  exact along_mono (fun _ _ h => trusted_of_test h) (by decide +kernel)

/-- The tables know of a reward of ten tokens, the chain of one token only. -/
def paperWorld : World :=
  { sampleWorld [codeOf "qr" 10] [] (10 ^ 7) with
    books := ⟨[], [⟨"household", none, .completed, some 10, none, none, none⟩], [], []⟩ }

/-- The node does not answer, and the estimate lets through what the wallet does not hold. -/
theorem estimate_overdraws : Opening household "wallet" paperWorld ∧ ∃ c,
    run (system BalanceReports.sampleService).step (quiescent paperWorld)
        (confirmation 0 "qr" none 18) = some c ∧
      c.world.chain "wallet" / 10 ^ 7 < (waiting c.world household.id).sum := by
  have hsum : (run (system BalanceReports.sampleService).step (quiescent paperWorld)
      (confirmation 0 "qr" none 18)).map (fun c => decide
        ((c.world.chain "wallet" : ℚ) / 10 ^ 7 < (waiting c.world household.id).sum)) =
      some true := by decide +kernel
  obtain ⟨c, hc, htrue⟩ := Option.map_eq_some_iff.mp hsum
  refine ⟨?_, c, hc, of_decide_eq_true htrue⟩
  refine opening_of_codes rfl (fun _ => rfl) (by decide +kernel) fun row hrow => ?_
  exact ⟨_, _, by norm_num, List.mem_singleton.mp hrow⟩

end Livora.RedemptionRaces
