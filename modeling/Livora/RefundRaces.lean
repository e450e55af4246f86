import Livora.BalanceReports
import Livora.ProgramPools
import Livora.PromisedJobs
import Livora.RefundStages

/-! Confirmations, refunds and the expiry of redemptions against one database, one queue and
one chain, in any order of their calls, with the workers that carry the jobs out. A
completion is held to the row it has locked; a refund goes by the status it has read, and
its job by itself. A redemption is refunded once, and after its transfer, along every
run in which each refund is written while the redemption is still COMPLETED and its
transfer has been applied. -/

namespace Livora.RefundRaces

open TransitionRuns EffectPrograms ProgramPools ProgramPools.System PromisedJobs
open StoreRefunds RefundStages
open StoreBooks
  (RedemptionTransaction RedemptionStatus Completion Failure Outcome StoreProfile Books
  stroops)
open BackOffice (JobData User)
open PinVerification (truthy Delivery)

inductive Outside where
  | pass (time : ℕ)
  /-- A code that nobody confirms expires. -/
  | expire (qrCodeRef : String)
  /-- The database ends a transaction that takes too long. -/
  | timeout (tx : ℕ)
  /-- A worker carries out the `n`-th job, for the first time or again. -/
  | work (n : ℕ)
  /-- Other services enqueue jobs that are not about redemptions. -/
  | enqueue (data : JobData)
  | credit (wallet : String) (amount : ℕ)
  | debit (wallet : String) (amount : ℕ)
  | amend (users : List User) (stores : List StoreProfile) (books : Books)

def transferOf : JobData → Option String
  | .redemptionTransfer redemptionId _ _ _ _ _ => some redemptionId
  | _ => none

def refundOf : JobData → Option String
  | .redemptionRefundTransfer redemptionId _ _ _ _ _ => some redemptionId
  | _ => none

structure Payout where
  source : String
  target : String
  tokenAmount : ℚ

/-- What a job moves: a transfer names the wallet it takes from, a refund takes from the one whose
key the vault of the store holds. -/
def payout (w : World) : JobData → Option Payout
  | .redemptionTransfer _ _ _ fromWallet toWallet tokenAmount =>
    some ⟨fromWallet, toWallet, tokenAmount⟩
  | .redemptionRefundTransfer _ fromStoreUserId _ _ toWallet tokenAmount => do
    let user ← w.books.findUser fromStoreUserId
    let source ← truthy user.walletAddress
    some ⟨source, toWallet, tokenAmount⟩
  | _ => none

/-- The `n`-th job, where the wallet it takes from can pay. -/
def payable (w : World) (n : ℕ) : Option (JobData × Payout) := do
  let job ← w.books.queue[n]?
  let p ← payout w job
  if stroops p.tokenAmount ≤ w.books.chain p.source then some (job, p) else none

def pay (w : World) (job : JobData) (p : Payout) : World :=
  { w with
    books := match transferOf job with
      | some redemptionId =>
        w.books.transferRedemption redemptionId p.source p.target p.tokenAmount
      | none => w.books.moveTokens p.source p.target (stroops p.tokenAmount) }

/-- The code is PENDING, for more than a day, and no transaction holds it. -/
def expirable (w : World) (qrCodeRef : String) : Bool :=
  (w.books.findRedemption qrCodeRef).any (fun row => row.status == .pending) &&
    decide (w.createdAt qrCodeRef + 24 * 60 * 60 * 1000 < w.now) &&
    w.books.rowLock qrCodeRef == none

def expired (qrCodeRef : String) (row : RedemptionTransaction) : RedemptionTransaction :=
  if row.qrCodeRef = qrCodeRef then { row with status := .expired } else row

def outside (w : World) : Outside → Option World
  | .pass time => some { w with now := w.now + time }
  | .expire qrCodeRef =>
    if expirable w qrCodeRef then
      some { w with
        books := { w.books with redemptions := w.books.redemptions.map (expired qrCodeRef) } }
    else none
  | .timeout tx => some { w with books := w.books.close tx }
  | .work n => (payable w n).map fun paid => pay w paid.1 paid.2
  | .enqueue data =>
    if transferOf data = none ∧ refundOf data = none then
      some { w with books := { w.books with queue := w.books.queue ++ [data] } }
    else none
  | .credit wallet amount => some { w with books := w.books.credit wallet amount }
  | .debit wallet amount =>
    if amount ≤ w.books.chain wallet then some { w with books := w.books.debit wallet amount }
    else none
  | .amend users stores books =>
    some { w with books := { w.books with users := users, stores := stores, books := books } }

def system (svc : WalletBalance.Service) : System Caller World Outcome Outside Stage Op
    (fun i => Except Failure (Reply i)) (Except Failure RedemptionTransaction) where
  program caller := (program svc caller).run
  serve := World.serve
  outside := outside
  protocol := protocol
  first := .first

abbrev Race := Pool World
  (Task Stage Op (fun i => Except Failure (Reply i)) (Except Failure RedemptionTransaction))

abbrev RaceEvent := Event Caller Outcome Outside

def quiescent (w : World) : Race := ⟨w, fun _ => none⟩

/-! ### The redemptions and their jobs -/

def statusOf (b : StoreBooks.World) (qrCodeRef : String) : Option RedemptionStatus :=
  (b.findRedemption qrCodeRef).map RedemptionTransaction.status

def transfersOf (b : StoreBooks.World) (qrCodeRef : String) : List JobData :=
  b.queue.filter fun job => transferOf job == some qrCodeRef

def refundsOf (b : StoreBooks.World) (qrCodeRef : String) : List JobData :=
  b.queue.filter fun job => refundOf job == some qrCodeRef

inductive Moves : Option RedemptionTransaction → Option RedemptionTransaction → Prop where
  | same (row : Option RedemptionTransaction) : Moves row row
  | created (row : RedemptionTransaction) (h : row.status = .pending) (hu : row.userId = none) :
      Moves none (some row)
  | completed (row : RedemptionTransaction) (userId : String) (amount : ℚ)
      (h : row.status = .pending) :
      Moves (some row)
        (some { row with status := .completed, userId := some userId, tokenAmount := amount })
  | expired (row : RedemptionTransaction) (h : row.status = .pending) :
      Moves (some row) (some { row with status := .expired })
  | refunded (row : RedemptionTransaction) (h : row.status = .completed ∨ row.status = .refunded) :
      Moves (some row) (some { row with status := .refunded })
  | applied (row : RedemptionTransaction) : Moves (some row) (some { row with applied := true })

def Confirmed (b : StoreBooks.World) (qrCodeRef : String) : Prop :=
  statusOf b qrCodeRef = some .completed ∨ statusOf b qrCodeRef = some .refunded

def owed (st : ℕ → Option Stage) (j : ℕ) : Option String :=
  ((st j).bind Stage.owing).map RedemptionTransaction.qrCodeRef

def returned (st : ℕ → Option Stage) (j : ℕ) : Option String :=
  ((st j).bind Stage.returning).map RedemptionTransaction.qrCodeRef

/-- A completion that a transaction has written is of a code it has locked, and which is PENDING
to the others. -/
structure Sound (b : StoreBooks.World) : Prop where
  keys : (b.redemptions.map RedemptionTransaction.qrCodeRef).Nodup
  opened : ∀ tx, b.isOpen tx = true → tx < b.nextTx
  written : ∀ tx c, b.transactions tx = some (some c) →
    b.rowLock c.qrCodeRef = some tx ∧ statusOf b c.qrCodeRef = some .pending

structure Knows (b : StoreBooks.World) (s : Stage) : Prop where
  fresh : ∀ tx, s.tx = some tx → tx < b.nextTx
  begun : s.tx = none → s.writing = none
  writing : ∀ tx qr, s.tx = some tx → s.writing = some qr → b.isOpen tx = true →
    ∃ c, b.transactions tx = some (some c) ∧ c.qrCodeRef = qr
  read : ∀ r, s.row = some r → ∃ qr, s.writing = some qr ∧ ∀ tx, s.tx = some tx →
    b.isOpen tx = true → ∃ row, r = some row ∧ row.qrCodeRef = qr
  found : ∀ id row, s.found = some (id, row) → row.status = .completed → Confirmed b id

structure Kept (b : StoreBooks.World) (st : ℕ → Option Stage) : Prop where
  sound : Sound b
  knows : ∀ j s, st j = some s → Knows b s
  apart : ∀ i j s t tx, st i = some s → st j = some t → s.tx = some tx → t.tx = some tx → i = j
  transfers : Orderly (Confirmed b) (fun qr => (transfersOf b qr).length) (owed st)

/-- What a step leaves to the other transactions than `mine`, and what it makes of the rows. -/
structure Steps (mine : Option ℕ) (b b' : StoreBooks.World) : Prop where
  sound : Sound b'
  next : b.nextTx ≤ b'.nextTx
  others : ∀ tx, tx < b.nextTx → mine ≠ some tx → b'.isOpen tx = true →
    b'.transactions tx = b.transactions tx
  moves : ∀ qr, Moves (b.findRedemption qr) (b'.findRedemption qr)

variable {svc : WalletBalance.Service} {w w' : World} {b b' : StoreBooks.World}
  {st : ℕ → Option Stage} {j tx : ℕ} {s : Stage} {i : Op} {o : Outcome} {mine : Option ℕ}
  {qr : String}

theorem Moves.confirmed {old new : Option RedemptionTransaction} (h : Moves old new)
    (hold : old.map RedemptionTransaction.status = some .completed ∨
      old.map RedemptionTransaction.status = some .refunded) :
    new.map RedemptionTransaction.status = some .completed ∨
      new.map RedemptionTransaction.status = some .refunded := by
  cases h with
  | same => exact hold
  | created row h hu => simp at hold
  | completed row userId amount h => exact .inl rfl
  | expired row h => simp [h] at hold
  | refunded row h => exact .inr rfl
  | applied row => exact hold

theorem Steps.confirmed (h : Steps mine b b') (hqr : Confirmed b qr) : Confirmed b' qr :=
  (h.moves qr).confirmed hqr

theorem Knows.steps (h : Knows b s) (hsteps : Steps mine b b')
    (hmine : ∀ tx, s.tx = some tx → mine ≠ some tx) : Knows b' s where
  fresh tx htx := (h.fresh tx htx).trans_le hsteps.next
  writing tx qr htx hqr hopen := by
    have hsame := hsteps.others tx (h.fresh tx htx) (hmine tx htx) hopen
    rw [hsame]
    refine h.writing tx qr htx hqr ?_
    rw [StoreBooks.World.isOpen, ← hsame]
    exact hopen
  read r hr := by
    obtain ⟨qr, hqr, hread⟩ := h.read r hr
    refine ⟨qr, hqr, fun tx htx hopen => hread tx htx ?_⟩
    rw [StoreBooks.World.isOpen, ← hsteps.others tx (h.fresh tx htx) (hmine tx htx) hopen]
    exact hopen
  begun := h.begun
  found id row hfound hcompleted := hsteps.confirmed (h.found id row hfound hcompleted)

/-! ### What a step does to the rows -/

theorem findRedemption_map {f : RedemptionTransaction → RedemptionTransaction}
    (hf : ∀ row, (f row).qrCodeRef = row.qrCodeRef) (hb : b'.redemptions = b.redemptions.map f)
    (qr : String) : b'.findRedemption qr = (b.findRedemption qr).map f := by
  unfold StoreBooks.World.findRedemption
  rw [hb, List.find?_map]
  congr 2
  funext row
  simp [hf]

theorem key_of_findRedemption {row : RedemptionTransaction} (h : b.findRedemption qr = some row) :
    row.qrCodeRef = qr := by
  simpa using List.find?_some h

theorem mem_of_findRedemption {row : RedemptionTransaction} (h : b.findRedemption qr = some row) :
    row ∈ b.redemptions := List.mem_of_find?_eq_some h

theorem findRedemption_congr (h : b'.redemptions = b.redemptions) (qr : String) :
    b'.findRedemption qr = b.findRedemption qr := by
  unfold StoreBooks.World.findRedemption
  rw [h]

theorem Sound.findRedemption_of_mem (h : Sound b) {row : RedemptionTransaction}
    (hrow : row ∈ b.redemptions) : b.findRedemption row.qrCodeRef = some row := by
  cases hfound : b.findRedemption row.qrCodeRef with
  | none =>
    have hnone := List.find?_eq_none.mp hfound row hrow
    simp at hnone
  | some row' =>
    exact congrArg some (List.inj_on_of_nodup_map h.keys (mem_of_findRedemption hfound) hrow
      (key_of_findRedemption hfound))

theorem Sound.still (h : Sound b) (hrows : b'.redemptions = b.redemptions)
    (hnext : b.nextTx ≤ b'.nextTx) (hopened : ∀ tx, b'.isOpen tx = true → tx < b'.nextTx)
    (hothers : ∀ tx, tx < b.nextTx → mine ≠ some tx → b'.isOpen tx = true →
      b'.transactions tx = b.transactions tx)
    (hwritten : ∀ tx c, b'.transactions tx = some (some c) →
      b'.rowLock c.qrCodeRef = some tx ∧ statusOf b c.qrCodeRef = some .pending) :
    Steps mine b b' where
  sound :=
    { keys := hrows ▸ h.keys
      opened := hopened
      written := fun tx c hc => by
        rw [statusOf, findRedemption_congr hrows]
        exact hwritten tx c hc }
  next := hnext
  others := hothers
  moves qr := findRedemption_congr hrows qr ▸ .same _

theorem Sound.same (h : Sound b) (hrows : b'.redemptions = b.redemptions)
    (htx : b'.transactions = b.transactions) (hnext : b'.nextTx = b.nextTx)
    (hlock : b'.rowLock = b.rowLock) : Steps none b b' := by
  refine h.still hrows hnext.ge (fun tx ht => ?_) (fun tx _ _ _ => by rw [htx]) fun tx c hc => ?_
  · rw [StoreBooks.World.isOpen, htx] at ht
    exact hnext ▸ h.opened tx ht
  · rw [htx] at hc
    rw [hlock]
    exact h.written tx c hc

theorem Sound.begin (h : Sound b) : Steps none b b.begin := by
  have hold (t : ℕ) (ht : t ≠ b.nextTx) : b.begin.transactions t = b.transactions t :=
    Function.update_of_ne ht _ _
  refine h.still rfl (Nat.le_succ _) (fun t ht => ?_) (fun t hlt _ _ => hold t hlt.ne)
    fun t c hc => ?_
  · change t < b.nextTx + 1
    by_cases hnew : t = b.nextTx
    · omega
    · rw [StoreBooks.World.isOpen, hold t hnew] at ht
      exact (h.opened t ht).trans (Nat.lt_succ_self _)
  · have hne : t ≠ b.nextTx := by
      rintro rfl
      simp [StoreBooks.World.begin] at hc
    rw [hold t hne] at hc
    exact h.written t c hc

theorem close_transactions {t : ℕ} (h : (b.close tx).isOpen t = true) :
    t ≠ tx ∧ (b.close tx).transactions t = b.transactions t := by
  have hne : t ≠ tx := by
    rintro rfl
    simp [StoreBooks.World.isOpen, StoreBooks.World.close] at h
  exact ⟨hne, Function.update_of_ne hne _ _⟩

theorem isOpen_of_written {c : Completion} (h : b.transactions tx = some (some c)) :
    b.isOpen tx = true := by
  rw [StoreBooks.World.isOpen, h]
  rfl

theorem Sound.close (h : Sound b) (tx : ℕ) : Steps none b (b.close tx) := by
  refine h.still rfl le_rfl (fun t ht => ?_) (fun t _ _ ht => (close_transactions ht).2)
    fun t c hc => ?_
  · refine h.opened t ?_
    rw [StoreBooks.World.isOpen, ← (close_transactions ht).2]
    exact ht
  · obtain ⟨hne, hsame⟩ := close_transactions (isOpen_of_written hc)
    rw [hsame] at hc
    obtain ⟨hlock, hpending⟩ := h.written t c hc
    refine ⟨?_, hpending⟩
    simp [StoreBooks.World.close, hlock, hne]

theorem Sound.confirmable (h : Sound b) (hqr : b.confirmable tx qr = true) :
    statusOf b qr = some .pending ∧ StoreBooks.World.free (b.rowLock qr) tx = true := by
  obtain ⟨row, hrow, hqr⟩ := List.any_eq_true.mp hqr
  simp only [Bool.and_eq_true, beq_iff_eq] at hqr
  obtain ⟨⟨rfl, hpending⟩, hfree⟩ := hqr
  refine ⟨?_, hfree⟩
  rw [statusOf, h.findRedemption_of_mem hrow, Option.map_some, hpending]

theorem free_some {t : ℕ} (h : StoreBooks.World.free (some t) tx = true) : t = tx := by
  simpa [StoreBooks.World.free] using h

theorem Sound.locked (h : Sound b) (hqr : b.confirmable tx qr = true) {t : ℕ} {c : Completion}
    (hc : b.transactions t = some (some c)) :
    Function.update b.rowLock qr (some tx) c.qrCodeRef = some t := by
  obtain ⟨hlock, -⟩ := h.written t c hc
  by_cases hcode : c.qrCodeRef = qr
  · rw [hcode, Function.update_self]
    have hfree := (h.confirmable hqr).2
    rw [← hcode, hlock] at hfree
    rw [free_some hfree]
  · rw [Function.update_of_ne hcode]
    exact hlock

theorem Sound.lockRedemption (h : Sound b) (tx : ℕ) (qr : String) :
    Steps none b (b.lockRedemption tx qr) := by
  unfold StoreBooks.World.lockRedemption
  split
  · rename_i hqr
    refine h.still rfl le_rfl h.opened (fun _ _ _ _ => rfl) fun t c hc => ?_
    exact ⟨h.locked hqr hc, (h.written t c hc).2⟩
  · exact h.same rfl rfl rfl rfl

theorem Sound.completeRedemption (h : Sound b) (hopen : b.isOpen tx = true) (qr userId : String)
    (amount : ℚ) : Steps (some tx) b (b.completeRedemption tx qr userId amount) := by
  have hsame : Steps (some tx) b b :=
    h.still rfl le_rfl h.opened (fun _ _ _ _ => rfl) h.written
  unfold StoreBooks.World.completeRedemption
  split
  · split
    · rename_i stored hstored hqr
      have hold (t : ℕ) (ht : t ≠ tx) : Function.update b.transactions tx
          (some (some ⟨qr, userId, stored⟩)) t = b.transactions t := Function.update_of_ne ht _ _
      refine h.still rfl le_rfl (fun t ht => ?_)
        (fun t _ hmine _ => hold t fun ht => hmine (by rw [ht])) fun t c hc => ?_
      · by_cases hne : t = tx
        · rw [hne]
          exact h.opened tx hopen
        · refine h.opened t ?_
          rw [StoreBooks.World.isOpen, ← hold t hne]
          exact ht
      · change Function.update b.transactions tx _ t = some (some c) at hc
        by_cases hne : t = tx
        · subst hne
          rw [Function.update_self] at hc
          cases hc
          exact ⟨Function.update_self .., (h.confirmable hqr).1⟩
        · rw [hold t hne] at hc
          exact ⟨h.locked hqr hc, (h.written t c hc).2⟩
    · exact hsame
  · exact hsame

theorem Sound.rewrite (h : Sound b) {f : RedemptionTransaction → RedemptionTransaction}
    (hkey : ∀ row, (f row).qrCodeRef = row.qrCodeRef)
    (hrows : b'.redemptions = b.redemptions.map f) (hnext : b'.nextTx = b.nextTx)
    (hmoves : ∀ row ∈ b.redemptions, Moves (some row) (some (f row)))
    (hothers : ∀ tx, b'.isOpen tx = true → b'.transactions tx = b.transactions tx)
    (hheld : ∀ tx c, b.transactions tx = some (some c) → b'.isOpen tx = true →
      b'.rowLock c.qrCodeRef = b.rowLock c.qrCodeRef ∧ ∀ row ∈ b.redemptions,
        row.qrCodeRef = c.qrCodeRef → row.status = .pending → (f row).status = .pending) :
    Steps none b b' where
  sound :=
    { keys := by
        rw [hrows, List.map_map]
        rw [show RedemptionTransaction.qrCodeRef ∘ f = RedemptionTransaction.qrCodeRef from
          funext hkey]
        exact h.keys
      opened := fun tx ht => by
        rw [hnext]
        refine h.opened tx ?_
        rw [StoreBooks.World.isOpen, ← hothers tx ht]
        exact ht
      written := fun tx c hc => by
        have hopen := isOpen_of_written hc
        rw [hothers tx hopen] at hc
        obtain ⟨hlock, hpending⟩ := h.written tx c hc
        obtain ⟨hsame, hstays⟩ := hheld tx c hc hopen
        refine ⟨hsame.trans hlock, ?_⟩
        obtain ⟨row, hrow, hstatus⟩ := Option.map_eq_some_iff.mp hpending
        rw [statusOf, findRedemption_map hkey hrows, hrow]
        exact congrArg some
          (hstays row (mem_of_findRedemption hrow) (key_of_findRedemption hrow) hstatus) }
  next := hnext.ge
  others tx _ _ ht := hothers tx ht
  moves qr := by
    rw [findRedemption_map hkey hrows]
    cases hrow : b.findRedemption qr with
    | none => exact .same none
    | some row => exact hmoves row (mem_of_findRedemption hrow)

theorem Sound.markApplied (h : Sound b) (qr source target : String) (amount : ℚ) :
    Steps none b (b.transferRedemption qr source target amount) := by
  have hmark (row : RedemptionTransaction) : StoreBooks.World.markApplied qr row = row ∨
      StoreBooks.World.markApplied qr row = { row with applied := true } := by
    unfold StoreBooks.World.markApplied
    split
    · exact .inr rfl
    · exact .inl rfl
  refine h.rewrite (f := StoreBooks.World.markApplied qr) (fun row => ?_) rfl rfl (fun row _ => ?_)
    (fun tx _ => rfl) fun tx c _ _ => ⟨rfl, fun row _ _ hpending => ?_⟩
  all_goals rcases hmark row with he | he <;> rw [he]
  · exact .same _
  · exact .applied row
  · exact hpending
  · exact hpending

theorem Sound.expire (h : Sound b) (hpending : ∀ row, b.findRedemption qr = some row →
      row.status = .pending) (hfree : b.rowLock qr = none) :
    Steps none b { b with redemptions := b.redemptions.map (expired qr) } := by
  refine h.rewrite (f := expired qr) (fun row => ?_) rfl rfl (fun row hrow => ?_) (fun tx _ => rfl)
    fun tx c hc _ => ⟨rfl, fun row _ hcode hstatus => ?_⟩
  · unfold expired
    split <;> rfl
  · unfold expired
    split
    · rename_i hcode
      exact .expired row (hpending row (hcode ▸ h.findRedemption_of_mem hrow))
    · exact .same _
  · have hne : row.qrCodeRef ≠ qr := by
      rintro he
      have hlock := (h.written tx c hc).1
      rw [← hcode, he, hfree] at hlock
      cases hlock
    rw [expired, if_neg hne]
    exact hstatus

theorem Sound.refund (h : Sound b) (hqr : Confirmed b qr) :
    Steps none b { b with redemptions := b.redemptions.map (World.refunded qr) } := by
  have hstatus {row : RedemptionTransaction} (hrow : row ∈ b.redemptions)
      (hcode : row.qrCodeRef = qr) : row.status = .completed ∨ row.status = .refunded := by
    have hqr := hqr
    rw [Confirmed, statusOf, ← hcode, h.findRedemption_of_mem hrow] at hqr
    simpa using hqr
  refine h.rewrite (f := World.refunded qr) (fun row => ?_) rfl rfl (fun row hrow => ?_)
    (fun tx _ => rfl) fun tx c hc _ => ⟨rfl, fun row hrow hcode hpending => ?_⟩
  · unfold World.refunded
    split <;> rfl
  · unfold World.refunded
    split
    · exact .refunded row (hstatus hrow ‹_›)
    · exact .same _
  · have hne : row.qrCodeRef ≠ qr := by
      intro he
      rcases hstatus hrow he with hs | hs <;> rw [hs] at hpending <;> cases hpending
    rw [World.refunded, if_neg hne]
    exact hpending

theorem Sound.commit (h : Sound b) (tx : ℕ) : Steps none b ((b.publish tx).close tx) := by
  by_cases hsome : ∃ c, b.transactions tx = some (some c)
  swap
  · have hnone : b.publish tx = b := by
      unfold StoreBooks.World.publish
      split
      · exact absurd ⟨_, ‹_›⟩ hsome
      · rfl
    rw [hnone]
    exact h.close tx
  obtain ⟨c, hc⟩ := hsome
  have hpublish : b.publish tx =
      { b with redemptions := b.redemptions.map (StoreBooks.World.completedBy c) } := by
    unfold StoreBooks.World.publish
    rw [hc]
  rw [hpublish]
  obtain ⟨hlock, hpending⟩ := h.written tx c hc
  refine h.rewrite (f := StoreBooks.World.completedBy c) (fun row => ?_) rfl rfl
    (fun row hrow => ?_) (fun t ht => ?_) fun t c' hc' ht => ⟨?_, fun row _ hcode hstatus => ?_⟩
  · unfold StoreBooks.World.completedBy
    split <;> rfl
  · unfold StoreBooks.World.completedBy
    split
    · rename_i hcode
      refine .completed row c.userId c.amount ?_
      rw [statusOf, ← hcode, h.findRedemption_of_mem hrow] at hpending
      simpa using hpending
    · exact .same _
  · have hne : t ≠ tx := by
      rintro rfl
      simp [StoreBooks.World.isOpen, StoreBooks.World.close] at ht
    exact Function.update_of_ne hne _ _
  all_goals
    have hne : t ≠ tx := by
      rintro rfl
      simp [StoreBooks.World.isOpen, StoreBooks.World.close] at ht
    have hlock' := (h.written t c' hc').1
  · simp [StoreBooks.World.close, hlock', hne]
  · have hother : row.qrCodeRef ≠ c.qrCodeRef := by
      rw [hcode]
      intro he
      rw [he, hlock] at hlock'
      exact hne (Option.some.inj hlock').symm
    rw [StoreBooks.World.completedBy, if_neg hother]
    exact hstatus

theorem Sound.createRedemption (h : Sound b) (qr storeId : String) (amount : ℚ) :
    Steps none b (b.createRedemption qr storeId amount) := by
  unfold StoreBooks.World.createRedemption
  split
  · rename_i stored hstored
    split
    · exact h.same rfl rfl rfl rfl
    · rename_i hnew
      have hfind (x : String) : StoreBooks.World.findRedemption { b with
          redemptions := b.redemptions ++ [⟨storeId, none, stored, qr, .pending, false⟩] } x =
          (b.findRedemption x).or (if qr = x then
            some ⟨storeId, none, stored, qr, .pending, false⟩ else none) := by
        unfold StoreBooks.World.findRedemption
        rw [List.find?_append]
        by_cases hx : qr = x <;> simp [hx]
      refine ⟨⟨?_, h.opened, fun tx c hc => ?_⟩, le_rfl, fun _ _ _ _ => rfl, fun x => ?_⟩
      · rw [List.map_append, List.nodup_append]
        refine ⟨h.keys, List.nodup_singleton _, fun k hk k' hk' => ?_⟩
        obtain ⟨row, hrow, rfl⟩ := List.mem_map.mp hk
        obtain rfl := List.mem_singleton.mp hk'
        rintro rfl
        exact hnew (by rw [h.findRedemption_of_mem hrow]; rfl)
      · obtain ⟨hlock, hpending⟩ := h.written tx c hc
        refine ⟨hlock, ?_⟩
        obtain ⟨row, hrow, hstatus⟩ := Option.map_eq_some_iff.mp hpending
        rw [statusOf, hfind, hrow]
        exact congrArg some hstatus
      · rw [hfind]
        cases hx : b.findRedemption x with
        | some row => exact .same _
        | none =>
          split
          · exact .created _ rfl rfl
          · exact .same _
  · exact h.same rfl rfl rfl rfl

def writes : Op → Option ℕ
  | .inl (.completeRedemption tx _ _ _) => some tx
  | _ => none

theorem Sound.effect (h : Sound b) (i : StoreBooks.Op) (o : Outcome) :
    Steps none b (b.effect o i) := by
  have hsame : Steps none b b := h.same rfl rfl rfl rfl
  cases i with
  | createRedemption storeId amount => exact h.createRedemption o.id storeId amount
  | begin => exact h.begin
  | createStoreProfile userId =>
    change Steps none b (b.createStoreProfile o.id userId)
    unfold StoreBooks.World.createStoreProfile
    split
    · exact hsame
    · exact h.same rfl rfl rfl rfl
  | createSettlement storeId amount =>
    change Steps none b (b.createSettlement o.id storeId amount)
    unfold StoreBooks.World.createSettlement
    split
    · split
      · exact hsame
      · exact h.same rfl rfl rfl rfl
    · exact hsame
  | _ => exact h.same rfl rfl rfl rfl

theorem Sound.books_after (h : Sound b) (i : StoreBooks.Op) (o : Outcome) :
    Steps (writes (.inl i)) b (b.after i o) := by
  have hsame : Steps none b b := h.same rfl rfl rfl rfl
  have heffect (i : StoreBooks.Op) : Steps none b (b.update o.delivery fun b => b.effect o i) :=
    StoreBooks.World.update_elim hsame (h.effect i o)
  cases i with
  | lockUser tx userId =>
    change Steps none b (if _ then b.update o.delivery _ else b)
    split
    · refine StoreBooks.World.update_elim hsame ?_
      unfold StoreBooks.World.lockUser
      split
      · exact h.same rfl rfl rfl rfl
      · exact hsame
    · exact hsame
  | lockRedemption tx qr =>
    change Steps none b (if _ then b.update o.delivery _ else b)
    split
    · exact StoreBooks.World.update_elim hsame (h.lockRedemption tx qr)
    · exact hsame
  | completeRedemption tx qr userId amount =>
    have hmine : Steps (some tx) b b :=
      h.still rfl le_rfl h.opened (fun _ _ _ _ => rfl) h.written
    change Steps (some tx) b (if _ then b.update o.delivery _ else b)
    split
    · exact StoreBooks.World.update_elim hmine (h.completeRedemption ‹_› qr userId amount)
    · exact hmine
  | debitAccount tx userId amount =>
    change Steps none b (if o.delivery = .done then b else b.close tx)
    split
    · exact hsame
    · exact h.close tx
  | commit tx =>
    change Steps none b ((if o.delivery.applied then b.publish tx else b).close tx)
    split
    · exact h.commit tx
    · exact h.close tx
  | rollback tx => exact h.close tx
  | _ => exact heffect _

theorem steps_after (h : Sound w.books) (hk : Knows w.books s) (hallowed : Allowed s i) :
    Steps (writes i) w.books (w.after i o).books := by
  have hsame : Steps none w.books w.books := h.same rfl rfl rfl rfl
  rcases i with i | i
  · exact h.books_after i o
  · cases i with
    | refund redemptionId =>
      obtain ⟨row, hfound, hcompleted⟩ := hallowed
      change Steps none w.books (if o.delivery.applied then w.refund redemptionId else w).books
      split
      · exact h.refund (hk.found redemptionId row hfound hcompleted)
      · exact hsame
    | _ => exact hsame

/-! ### What a call does to what its program knows -/

theorem books_within {α : Type} {d : Delivery} {a x : α} (h : b.within tx d a = .ok x) :
    b.isOpen tx = true ∧ d = .done ∧ a = x := by
  unfold StoreBooks.World.within at h
  split at h
  · exact ⟨‹_›, Delivery.answer_ok h⟩
  · cases h

theorem Sound.rowWithin (h : Sound b) {c : Completion} (hc : b.transactions tx = some (some c)) :
    ∃ row, b.rowWithin tx c.qrCodeRef = some row ∧ row.qrCodeRef = c.qrCodeRef := by
  obtain ⟨-, hpending⟩ := h.written tx c hc
  obtain ⟨row, hrow, -⟩ := Option.map_eq_some_iff.mp hpending
  have hkey (row : RedemptionTransaction) :
      (StoreBooks.World.completedBy c row).qrCodeRef = row.qrCodeRef := by
    unfold StoreBooks.World.completedBy
    split <;> rfl
  refine ⟨StoreBooks.World.completedBy c row, ?_, (hkey row).trans (key_of_findRedemption hrow)⟩
  rw [StoreBooks.World.rowWithin, StoreBooks.World.publish, hc, findRedemption_map hkey rfl, hrow]
  rfl

theorem locking_true {d : Delivery} (h : b.locking tx qr d = .ok true) :
    b.confirmable tx qr = true ∧ b.isOpen tx = true ∧ d = .done := by
  unfold StoreBooks.World.locking at h
  split at h
  · obtain ⟨hopen, hdone, -⟩ := books_within h
    exact ⟨‹_›, hopen, hdone⟩
  · split at h
    · cases h
    · cases (books_within h).2.2

theorem transactions_completeRedemption {userId : String} {amount stored : ℚ}
    (hstored : StoreBooks.storedAmount amount = some stored) (hqr : b.confirmable tx qr = true) :
    (b.completeRedemption tx qr userId amount).transactions =
      Function.update b.transactions tx (some (some ⟨qr, userId, stored⟩)) := by
  unfold StoreBooks.World.completeRedemption
  split
  · rename_i stored' hstored'
    obtain rfl := Option.some.inj (hstored.symm.trans hstored')
    split
    · rfl
    · contradiction
  · rename_i hnone
    rw [hstored] at hnone
    cases hnone

theorem reply_completeRedemption {userId : String} {amount : ℚ}
    (h : b.reply (.completeRedemption tx qr userId amount) o = .ok true) :
    ∃ stored, (b.after (.completeRedemption tx qr userId amount) o).transactions tx =
      some (some ⟨qr, userId, stored⟩) := by
  change (if (StoreBooks.storedAmount amount).isSome then b.locking tx qr o.delivery
    else .error .outside) = .ok true at h
  cases hstored : StoreBooks.storedAmount amount with
  | none =>
    rw [hstored] at h
    cases h
  | some stored =>
    rw [hstored] at h
    obtain ⟨hqr, hopen, hdone⟩ := locking_true h
    have happlied : Delivery.done.applied = true := rfl
    refine ⟨stored, ?_⟩
    change (if b.isOpen tx then b.update o.delivery
      fun b => b.completeRedemption tx qr userId amount else b).transactions tx = _
    rw [if_pos hopen, StoreBooks.World.update, hdone, if_pos happlied,
      transactions_completeRedemption hstored hqr]
    exact Function.update_self tx _ b.transactions

theorem reply_findRefundable {redemptionId : String} {redemption : Refundable}
    (h : w.reply (.inr (.findRefundable redemptionId)) o = .ok (some redemption)) :
    w.books.findRedemption redemptionId = some redemption.row := by
  obtain ⟨-, hfound⟩ := Delivery.answer_ok
    (show o.delivery.answer Failure.outside (w.refundable redemptionId) = _ from h)
  obtain ⟨row, hrow, rfl⟩ := Option.map_eq_some_iff.mp hfound
  exact hrow

theorem Knows.waiting (h : Knows b s) (hsteps : Steps mine b b') (hwriting : s.writing = none) :
    Knows b' s where
  fresh tx htx := (h.fresh tx htx).trans_le hsteps.next
  begun := h.begun
  writing tx qr _ hqr := by
    rw [hwriting] at hqr
    cases hqr
  read r hr := by
    obtain ⟨qr, hqr, -⟩ := h.read r hr
    rw [hwriting] at hqr
    cases hqr
  found id row hfound hcompleted := hsteps.confirmed (h.found id row hfound hcompleted)

theorem knows_begin (h : Sound b) (hk : Knows b s) (htx : s.tx = none) :
    Knows (b.after .begin o) (next s (.inl .begin) (b.reply .begin o)) := by
  have hwriting := hk.begun htx
  have hsteps := hk.waiting (h.books_after .begin o) hwriting
  cases hreply : b.reply .begin o with
  | error e => exact hsteps
  | ok tx =>
    obtain ⟨hdone, rfl⟩ := Delivery.answer_ok
      (show o.delivery.answer Failure.outside b.nextTx = .ok tx from hreply)
    refine ⟨fun t ht => ?_, fun hnone => (by cases hnone), fun t qr _ hqr => ?_, fun r hr => ?_,
      hsteps.found⟩
    · cases ht
      have hafter : b.after .begin o = b.begin := by
        change b.update o.delivery (fun b => b.effect o .begin) = b.begin
        rw [hdone]
        rfl
      rw [hafter]
      exact Nat.lt_succ_self _
    · rw [show s.writing = some qr from hqr] at hwriting
      cases hwriting
    · obtain ⟨qr, hqr, -⟩ := hk.read r hr
      rw [hwriting] at hqr
      cases hqr

theorem knows_complete (h : Sound b) (hk : Knows b s) {userId : String} {amount : ℚ}
    (htx : s.tx = some tx) (hwriting : s.writing = none) :
    Knows (b.after (.completeRedemption tx qr userId amount) o)
      (next s (.inl (.completeRedemption tx qr userId amount))
        (b.reply (.completeRedemption tx qr userId amount) o)) := by
  have hsteps := hk.waiting (h.books_after (.completeRedemption tx qr userId amount) o) hwriting
  cases hreply : b.reply (.completeRedemption tx qr userId amount) o with
  | error e => exact hsteps
  | ok updated =>
    cases updated with
    | false => exact hsteps
    | true =>
      obtain ⟨stored, hwritten⟩ := reply_completeRedemption hreply
      refine ⟨hsteps.fresh, fun hnone => ?_, fun t x ht hx _ => ?_, fun r hr => ?_, hsteps.found⟩
      · rw [show s.tx = none from hnone] at htx
        cases htx
      · cases htx.symm.trans ht
        cases hx
        exact ⟨_, hwritten, rfl⟩
      · obtain ⟨x, hx, -⟩ := hk.read r hr
        rw [hwriting] at hx
        cases hx

theorem knows_read (h : Sound b) (hk : Knows b s) (htx : s.tx = some tx)
    (hwriting : s.writing = some qr) :
    Knows (b.after (.readRedemption tx qr) o)
      (next s (.inl (.readRedemption tx qr)) (b.reply (.readRedemption tx qr) o)) := by
  have hsteps := hk.steps (h.books_after (.readRedemption tx qr) o) fun _ _ h => by cases h
  have hafter : b.after (.readRedemption tx qr) o = b := by
    change b.update o.delivery (fun b => b) = b
    exact StoreBooks.World.update_elim (p := fun x => x = b) rfl rfl
  cases hreply : b.reply (.readRedemption tx qr) o with
  | error e => exact hsteps
  | ok row =>
    refine ⟨hsteps.fresh, hsteps.begun, hsteps.writing, fun r hr => ⟨qr, hwriting, ?_⟩,
      hsteps.found⟩
    intro t ht _
    cases hr
    obtain ⟨hopen, -, hrow⟩ := books_within
      (show b.within tx o.delivery (b.rowWithin tx qr) = .ok row from hreply)
    obtain ⟨c, hc, rfl⟩ := hk.writing tx qr htx hwriting hopen
    obtain ⟨row', hwithin, hkey⟩ := h.rowWithin hc
    exact ⟨row', hrow.symm.trans hwithin, hkey⟩

theorem knows_next (h : Sound w.books) (hk : Knows w.books s) (hallowed : Allowed s i) :
    Knows (w.after i o).books (next s i (w.reply i o)) := by
  have hsteps := steps_after (o := o) h hk hallowed
  rcases i with i | i
  · cases i with
    | begin => exact knows_begin h hk hallowed
    | completeRedemption tx qr userId amount => exact knows_complete h hk hallowed.1 hallowed.2
    | readRedemption tx qr => exact knows_read h hk hallowed.1 hallowed.2
    | commit tx =>
      have hsame := hk.steps hsteps fun _ _ h => by cases h
      cases w.reply (.inl (.commit tx)) o <;>
        exact ⟨hsame.fresh, hsame.begun, hsame.writing, hsame.read, hsame.found⟩
    | emit userId event =>
      have hsame := hk.steps hsteps fun _ _ h => by cases h
      cases w.reply (.inl (.emit userId event)) o <;>
        exact ⟨hsame.fresh, hsame.begun, hsame.writing, hsame.read, hsame.found⟩
    | add data attempts =>
      have hsame := hk.steps hsteps fun _ _ h => by cases h
      cases data <;> exact ⟨hsame.fresh, hsame.begun, hsame.writing, hsame.read, hsame.found⟩
    | _ => exact hk.steps hsteps fun _ _ h => by cases h
  · have hsame := hk.steps hsteps fun _ _ h => by cases h
    cases i with
    | clock => exact hsame
    | findStore userId => exact hsame
    | findRefundable redemptionId =>
      rcases hreply : w.reply (.inr (.findRefundable redemptionId)) o with e | ⟨_ | redemption⟩
      · exact hsame
      · exact hsame
      · have hrow := reply_findRefundable hreply
        refine ⟨hsame.fresh, hsame.begun, hsame.writing, hsame.read,
          fun id row hfound hstatus => ?_⟩
        cases hfound
        refine .inl ?_
        change (w.books.findRedemption redemptionId).map RedemptionTransaction.status = _
        rw [hrow, Option.map_some, hstatus]
    | refund redemptionId =>
      cases w.reply (.inr (.refund redemptionId)) o <;>
        exact ⟨hsame.fresh, hsame.begun, hsame.writing, hsame.read, hsame.found⟩

/-! ### What a call does to the jobs -/

theorem owed_update (t : Option Stage) : owed (Function.update st j t) =
    Function.update (owed st) j ((t.bind Stage.owing).map RedemptionTransaction.qrCodeRef) := by
  funext k
  by_cases hk : k = j
  · subst hk
    simp [owed]
  · simp [owed, hk]

theorem owed_keep (hj : st j = some s) {t : Stage} (ht : t.owing = s.owing) :
    owed (Function.update st j (some t)) = owed st := by
  rw [owed_update, Function.update_eq_self_iff, owed, hj]
  change t.owing.map _ = s.owing.map _
  rw [ht]

theorem returned_update (t : Option Stage) : returned (Function.update st j t) =
    Function.update (returned st) j
      ((t.bind Stage.returning).map RedemptionTransaction.qrCodeRef) := by
  funext k
  by_cases hk : k = j
  · subst hk
    simp [returned]
  · simp [returned, hk]

theorem returned_keep (hj : st j = some s) {t : Stage} (ht : t.returning = s.returning) :
    returned (Function.update st j (some t)) = returned st := by
  rw [returned_update, Function.update_eq_self_iff, returned, hj]
  change t.returning.map _ = s.returning.map _
  rw [ht]

theorem queue_effect {i : StoreBooks.Op} (h : ∀ data attempts, i ≠ .add data attempts) :
    (b.effect o i).queue = b.queue := by
  cases i with
  | add data attempts => exact absurd rfl (h data attempts)
  | createRedemption storeId amount =>
    change (b.createRedemption o.id storeId amount).queue = b.queue
    unfold StoreBooks.World.createRedemption
    split
    · split <;> rfl
    · rfl
  | createStoreProfile userId =>
    change (b.createStoreProfile o.id userId).queue = b.queue
    unfold StoreBooks.World.createStoreProfile
    split <;> rfl
  | createSettlement storeId amount =>
    change (b.createSettlement o.id storeId amount).queue = b.queue
    unfold StoreBooks.World.createSettlement
    split
    · split <;> rfl
    · rfl
  | _ => rfl

theorem queue_publish (b : StoreBooks.World) (tx : ℕ) : (b.publish tx).queue = b.queue := by
  unfold StoreBooks.World.publish
  split <;> rfl

theorem queue_books {i : StoreBooks.Op} (h : ∀ data attempts, i ≠ .add data attempts) :
    (b.after i o).queue = b.queue := by
  unfold StoreBooks.World.after
  split
  · split
    · refine StoreBooks.World.update_elim (p := fun x => x.queue = b.queue) rfl ?_
      unfold StoreBooks.World.lockUser
      split <;> rfl
    · rfl
  · split
    · refine StoreBooks.World.update_elim (p := fun x => x.queue = b.queue) rfl ?_
      unfold StoreBooks.World.lockRedemption
      split <;> rfl
    · rfl
  · split
    · refine StoreBooks.World.update_elim (p := fun x => x.queue = b.queue) rfl ?_
      unfold StoreBooks.World.completeRedemption
      split
      · split <;> rfl
      · rfl
    · rfl
  · split <;> rfl
  · split
    · exact queue_publish b _
    · rfl
  · rfl
  · exact StoreBooks.World.update_elim (p := fun x => x.queue = b.queue) rfl (queue_effect h)

theorem queue_after (h : ∀ data attempts, i ≠ .inl (.add data attempts)) :
    (w.after i o).books.queue = w.books.queue := by
  rcases i with i | i
  · exact queue_books fun data attempts he => h data attempts (by rw [he])
  · cases i with
    | refund redemptionId =>
      change (if o.delivery.applied then w.refund redemptionId else w).books.queue = _
      split <;> rfl
    | _ => rfl

theorem length_append (kind : JobData → Option String) (queue : List JobData) (data : JobData)
    (x : String) : ((queue ++ [data]).filter fun job => kind job == some x).length =
      (queue.filter fun job => kind job == some x).length + if kind data =
        some x then 1 else 0 := by
  rw [List.filter_append, List.length_append]
  by_cases hx : kind data = some x <;> simp [hx]

theorem transferOf_of_isTransferOf {row : RedemptionTransaction} {data : JobData}
    (h : isTransferOf row data) : transferOf data = some row.qrCodeRef ∧ refundOf data = none ∧
      ∀ (r : Except Failure Unit) (t : Stage) attempts, next t (.inl (.add data attempts)) r =
        { t with owing := none } := by
  cases data with
  | redemptionTransfer redemptionId fromUserId toStoreUserId fromWallet toWallet amount =>
    exact ⟨congrArg some h.1, rfl, fun _ _ _ => rfl⟩
  | _ => exact False.elim h

theorem refundOf_of_isRefundOf {row : RedemptionTransaction} {data : JobData}
    (h : isRefundOf row data) : transferOf data = none ∧ refundOf data = some row.qrCodeRef ∧
      ∀ (r : Except Failure Unit) (t : Stage) attempts, next t (.inl (.add data attempts)) r =
        { t with returning := none } := by
  cases data with
  | redemptionRefundTransfer redemptionId fromStoreUserId toHouseholdUserId fromWallet toWallet
      amount => exact ⟨rfl, congrArg some h.1, fun _ _ _ => rfl⟩
  | _ => exact False.elim h

theorem add_cases {data : JobData} {attempts : ℕ}
    (hallowed : Allowed s (.inl (.add data attempts))) :
    (∃ row, s.owing = some row ∧ transferOf data = some row.qrCodeRef ∧ refundOf data = none ∧
      ∀ r, next s (.inl (.add data attempts)) r = { s with owing := none }) ∨
    ∃ row, s.returning = some row ∧ transferOf data = none ∧ refundOf data = some row.qrCodeRef ∧
      ∀ r, next s (.inl (.add data attempts)) r = { s with returning := none } := by
  rcases hallowed with ⟨row, howing, hjob⟩ | ⟨row, hreturning, hjob⟩
  · obtain ⟨htransfer, hrefund, hnext⟩ := transferOf_of_isTransferOf hjob
    exact .inl ⟨row, howing, htransfer, hrefund, fun r => hnext r s attempts⟩
  · obtain ⟨htransfer, hrefund, hnext⟩ := refundOf_of_isRefundOf hjob
    exact .inr ⟨row, hreturning, htransfer, hrefund, fun r => hnext r s attempts⟩

def Owing : Op → Prop
  | .inl (.commit _) => True
  | .inl (.emit _ _) => True
  | .inl (.add _ _) => True
  | _ => False

theorem owing_next {r : Except Failure (Reply i)} (h : ¬ Owing i) :
    (next s i r).owing = s.owing := by
  rcases i with i | i
  · cases i with
    | commit tx => exact absurd trivial h
    | emit userId event => exact absurd trivial h
    | add data attempts => exact absurd trivial h
    | begin => cases r <;> rfl
    | completeRedemption tx qr userId amount => rcases r with e | ⟨_ | _⟩ <;> rfl
    | readRedemption tx qr => cases r <;> rfl
    | _ => rfl
  · cases i with
    | findRefundable redemptionId => rcases r with e | ⟨_ | redemption⟩ <;> rfl
    | refund redemptionId => cases r <;> rfl
    | _ => rfl

def Returning : Op → Prop
  | .inl (.add _ _) => True
  | .inr (.refund _) => True
  | _ => False

theorem returning_next {r : Except Failure (Reply i)} (h : ¬ Returning i) :
    (next s i r).returning = s.returning := by
  rcases i with i | i
  · cases i with
    | add data attempts => exact absurd trivial h
    | begin => cases r <;> rfl
    | completeRedemption tx qr userId amount => rcases r with e | ⟨_ | _⟩ <;> rfl
    | readRedemption tx qr => cases r <;> rfl
    | commit tx => cases r <;> rfl
    | emit userId event => cases r <;> rfl
    | _ => rfl
  · cases i with
    | findRefundable redemptionId => rcases r with e | ⟨_ | redemption⟩ <;> rfl
    | refund redemptionId => exact absurd trivial h
    | _ => rfl

theorem statusOf_map {f : RedemptionTransaction → RedemptionTransaction} {code x : String}
    {status : RedemptionStatus} (hf : ∀ row, (f row).qrCodeRef = row.qrCodeRef ∧
      (f row).status = if row.qrCodeRef = code then status else row.status)
    (hb : b'.redemptions = b.redemptions.map f) :
    statusOf b' x = (statusOf b x).map fun old => if x = code then status else old := by
  unfold statusOf
  rw [findRedemption_map (fun row => (hf row).1) hb]
  cases hrow : b.findRedemption x with
  | none => rfl
  | some row =>
    simp only [Option.map_some, (hf row).2, key_of_findRedemption hrow]

theorem statusOf_publish {c : Completion} {x : String} (hc : b.transactions tx = some (some c)) :
    statusOf (b.publish tx) x =
      (statusOf b x).map fun old => if x = c.qrCodeRef then .completed else old := by
  rw [StoreBooks.World.publish, hc]
  refine statusOf_map (f := StoreBooks.World.completedBy c) (fun row => ?_) rfl
  unfold StoreBooks.World.completedBy
  split <;> exact ⟨rfl, rfl⟩

theorem statusOf_refund {id x : String} : statusOf (w.refund id).books x =
    (statusOf w.books x).map fun old => if x = id then .refunded else old := by
  refine statusOf_map (f := World.refunded id) (fun row => ?_) rfl
  unfold World.refunded
  split <;> exact ⟨rfl, rfl⟩

theorem committed (h : Sound b) (hk : Knows b s) (htx : s.tx = some tx) (hrow : s.row ≠ none)
    (hreply : b.reply (.commit tx) o = .ok ()) : ∃ row, s.row = some (some row) ∧
      ¬ Confirmed b row.qrCodeRef ∧ Confirmed (b.after (.commit tx) o) row.qrCodeRef ∧
      ∀ x, statusOf (b.after (.commit tx) o) x = some .completed →
        statusOf b x = some .completed ∨ x = row.qrCodeRef := by
  obtain ⟨r, hr⟩ := Option.ne_none_iff_exists'.mp hrow
  obtain ⟨qr, hwriting, hread⟩ := hk.read r hr
  obtain ⟨hopen, hdone, -⟩ := books_within (show b.within tx o.delivery () = .ok () from hreply)
  obtain ⟨row, rfl, hkey⟩ := hread tx htx hopen
  obtain ⟨c, hc, hcode⟩ := hk.writing tx qr htx hwriting hopen
  obtain ⟨-, hpending⟩ := h.written tx c hc
  rw [hcode, ← hkey] at hpending
  have happlied : Delivery.done.applied = true := rfl
  have hafter (x : String) : statusOf (b.after (.commit tx) o) x =
      (statusOf b x).map fun status => if x = row.qrCodeRef then .completed else status := by
    change statusOf (if o.delivery.applied then b.publish tx else b) x = _
    rw [hdone, if_pos happlied, statusOf_publish hc, hkey, ← hcode]
  refine ⟨row, hr, ?_, .inl ?_, fun x hx => ?_⟩
  · rintro (hstatus | hstatus) <;> rw [hpending] at hstatus <;> cases hstatus
  · rw [hafter, hpending, Option.map_some, if_pos rfl]
  · rw [hafter] at hx
    by_cases hxr : x = row.qrCodeRef
    · exact .inr hxr
    · simp only [if_neg hxr, Option.map_id'] at hx
      exact .inl hx

theorem transfersOf_congr (h : b'.queue = b.queue) (x : String) :
    (transfersOf b' x).length = (transfersOf b x).length := by
  unfold transfersOf
  rw [h]

theorem queue_add {data : JobData} {attempts : ℕ} :
    (w.after (.inl (.add data attempts)) o).books.queue =
      if o.delivery.applied then w.books.queue ++ [data] else w.books.queue := by
  change (w.books.update o.delivery _).queue = _
  unfold StoreBooks.World.update
  split <;> rfl

theorem transfers_next (h : Kept w.books st) (hj : st j = some s) (hallowed : Allowed s i) :
    Orderly (Confirmed (w.after i o).books) (fun x => (transfersOf (w.after i o).books x).length)
      (owed (Function.update st j (some (next s i (w.reply i o))))) := by
  have hk := h.knows j s hj
  have hsteps := steps_after (o := o) h.sound hk hallowed
  have hconfirmed (x : String) (hx : Confirmed w.books x) : Confirmed (w.after i o).books x :=
    hsteps.confirmed hx
  by_cases howing : Owing i
  swap
  · rw [owed_keep hj (owing_next howing)]
    refine h.transfers.mono hconfirmed fun x => transfersOf_congr (queue_after ?_) x
    rintro data attempts rfl
    exact howing trivial
  rcases i with i | i
  swap
  · cases i <;> exact False.elim howing
  cases i with
  | commit tx =>
    have hqueue (x : String) : (transfersOf (w.after (.inl (.commit tx)) o).books x).length =
        (transfersOf w.books x).length :=
      transfersOf_congr (queue_after fun data attempts he => by cases he) x
    cases hreply : w.reply (.inl (.commit tx)) o with
    | error e =>
      rw [owed_keep hj (t := next s (.inl (.commit tx)) (.error e)) rfl]
      exact h.transfers.mono hconfirmed hqueue
    | ok u =>
      obtain ⟨row, hrow, hnew, hnow, -⟩ := committed h.sound hk hallowed.1 hallowed.2 hreply
      have hnext : (next s (.inl (.commit tx)) (.ok u)).owing = some row := by
        change s.row.join = some row
        rw [hrow]
        rfl
      rw [owed_update, Option.bind_some, hnext]
      have hincur := h.transfers.incur hnew hconfirmed hnow j
      exact hincur.mono (fun _ hx => hx) hqueue
  | emit userId event =>
    have hqueue
      (x : String) : (transfersOf (w.after (.inl (.emit userId event)) o).books x).length =
        (transfersOf w.books x).length :=
      transfersOf_congr (queue_after fun data attempts he => by cases he) x
    cases w.reply (.inl (.emit userId event)) o with
    | error e =>
      rw [owed_update]
      exact (h.transfers.release j).mono hconfirmed hqueue
    | ok u =>
      rw [owed_keep hj (t := next s (.inl (.emit userId event)) (.ok u)) rfl]
      exact h.transfers.mono hconfirmed hqueue
  | add data attempts =>
    rcases add_cases hallowed with ⟨row, hrow, htransfer, -, hnext⟩ | ⟨row, -, htransfer, -, hnext⟩
    · rw [hnext, owed_update]
      by_cases happlied : o.delivery.applied
      · have hmine : owed st j = some row.qrCodeRef := by
          rw [owed, hj, Option.bind_some, hrow, Option.map_some]
        have hjobs
          (x : String) : (transfersOf (w.after (.inl (.add data attempts)) o).books x).length =
            (transfersOf w.books x).length + if x = row.qrCodeRef then 1 else 0 := by
          rw [transfersOf, queue_add, if_pos happlied, length_append, htransfer]
          simp only [Option.some.injEq, eq_comm]
          rfl
        exact (h.transfers.enqueue hmine hjobs).mono hconfirmed fun _ => rfl
      · refine (h.transfers.release j).mono hconfirmed fun x => transfersOf_congr ?_ x
        rw [queue_add, if_neg happlied]
    · rw [hnext, owed_keep hj (t := { s with returning := none }) rfl]
      refine h.transfers.mono hconfirmed fun x => ?_
      rw [transfersOf, queue_add]
      split
      · rw [length_append, htransfer]
        rfl
      · rfl
  | _ => exact False.elim howing

/-! ### Every run -/

theorem tx_next : (next s i (w.reply i o)).tx = s.tx ∨
    (next s i (w.reply i o)).tx = some w.books.nextTx := by
  rcases i with i | i
  · cases i with
    | begin =>
      cases hreply : w.reply (.inl .begin) o with
      | error e => exact .inl rfl
      | ok tx =>
        obtain ⟨-, rfl⟩ := Delivery.answer_ok
          (show o.delivery.answer Failure.outside w.books.nextTx = .ok tx from hreply)
        exact .inr rfl
    | completeRedemption tx qr userId amount =>
      rcases w.reply (.inl (.completeRedemption tx qr userId amount)) o with e | ⟨_ | _⟩ <;>
        exact .inl rfl
    | readRedemption tx qr => cases w.reply (.inl (.readRedemption tx qr)) o <;> exact .inl rfl
    | commit tx => cases w.reply (.inl (.commit tx)) o <;> exact .inl rfl
    | emit userId event => cases w.reply (.inl (.emit userId event)) o <;> exact .inl rfl
    | add data attempts => cases data <;> exact .inl rfl
    | _ => exact .inl rfl
  · cases i with
    | findRefundable redemptionId =>
      rcases w.reply (.inr (.findRefundable redemptionId)) o with e | ⟨_ | redemption⟩ <;>
        exact .inl rfl
    | refund redemptionId => cases w.reply (.inr (.refund redemptionId)) o <;> exact .inl rfl
    | _ => exact .inl rfl

theorem writes_allowed (hallowed : Allowed s i) (hi : writes i = some tx) : s.tx = some tx := by
  rcases i with i | i
  · cases i with
    | completeRedemption t qr userId amount =>
      cases hi
      exact hallowed.1
    | _ => cases hi
  · cases hi

theorem kept_call (h : Kept w.books st) (hj : st j = some s) (hallowed : Allowed s i) :
    Kept (w.after i o).books (Function.update st j (some (next s i (w.reply i o)))) := by
  have hk := h.knows j s hj
  have hsteps := steps_after (o := o) h.sound hk hallowed
  have hapart (k : ℕ) (t : Stage) (tx : ℕ) (hkj : k ≠ j) (hs : st k = some t)
      (ht : t.tx = some tx) : (next s i (w.reply i o)).tx ≠ some tx := by
    intro hmine
    rcases tx_next (s := s) (i := i) (w := w) (o := o) with hsame | hnew
    · exact hkj (h.apart k j t s tx hs hj ht (hsame.symm.trans hmine))
    · have hlt := (h.knows k t hs).fresh tx ht
      rw [hnew] at hmine
      cases hmine
      exact lt_irrefl _ hlt
  refine ⟨hsteps.sound, fun k t hs => ?_, fun k l t u tx hs hu ht htu => ?_,
    transfers_next h hj hallowed⟩
  · by_cases hkj : k = j
    · subst hkj
      rw [Function.update_self] at hs
      cases hs
      exact knows_next h.sound hk hallowed
    · rw [Function.update_of_ne hkj] at hs
      refine (h.knows k t hs).steps hsteps fun tx ht hwrites => ?_
      exact hkj (h.apart k j t s tx hs hj ht (writes_allowed hallowed hwrites))
  · by_cases hkj : k = j <;> by_cases hlj : l = j
    · exact hkj.trans hlj.symm
    · rw [hkj, Function.update_self] at hs
      rw [Function.update_of_ne hlj] at hu
      cases hs
      exact absurd ht (hapart l u tx hlj hu htu)
    · rw [Function.update_of_ne hkj] at hs
      rw [hlj, Function.update_self] at hu
      cases hu
      exact absurd htu (hapart k t tx hkj hs ht)
    · rw [Function.update_of_ne hkj] at hs
      rw [Function.update_of_ne hlj] at hu
      exact h.apart k l t u tx hs hu ht htu

theorem owed_first (hj : st j = none) : owed (Function.update st j (some .first)) = owed st := by
  rw [owed_update, Function.update_eq_self_iff, owed, hj]
  rfl

theorem Kept.forget (h : Kept b st) {t : Option Stage} (ht : ∀ u, t = some u → u = .first)
    (howed : Orderly (Confirmed b) (fun x => (transfersOf b x).length)
      (owed (Function.update st j t))) : Kept b (Function.update st j t) := by
  refine ⟨h.sound, fun k u hk => ?_, fun k l u v tx hk hl hu hv => ?_, howed⟩
  · by_cases hkj : k = j
    · rw [hkj, Function.update_self] at hk
      obtain rfl := ht u hk
      exact ⟨fun tx htx => (by cases htx), fun _ => rfl, fun tx qr htx => (by cases htx),
        fun r hr => (by cases hr), fun id row hrow => (by cases hrow)⟩
    · rw [Function.update_of_ne hkj] at hk
      exact h.knows k u hk
  · have hne (k : ℕ) (u : Stage) (hk : Function.update st j t k = some u) (hu : u.tx = some tx) :
        k ≠ j := by
      rintro rfl
      rw [Function.update_self] at hk
      obtain rfl := ht u hk
      cases hu
    rw [Function.update_of_ne (hne k u hk hu)] at hk
    rw [Function.update_of_ne (hne l v hl hv)] at hl
    exact h.apart k l u v tx hk hl hu hv

theorem kept_start (h : Kept b st) (hj : st j = none) :
    Kept b (Function.update st j (some .first)) := by
  refine h.forget (fun u hu => (Option.some.inj hu).symm) ?_
  rw [owed_first hj]
  exact h.transfers

theorem kept_stop (h : Kept b st) : Kept b (Function.update st j none) := by
  refine h.forget (fun u hu => by cases hu) ?_
  rw [owed_update]
  exact h.transfers.release j

/-! ### What happens outside -/

theorem expirable_pending (h : expirable w qr = true) :
    (∀ row, w.books.findRedemption qr = some row → row.status = .pending) ∧
      w.books.rowLock qr = none := by
  simp only [expirable, Bool.and_eq_true, beq_iff_eq] at h
  obtain ⟨⟨hpending, -⟩, hfree⟩ := h
  refine ⟨fun row hrow => ?_, hfree⟩
  rw [hrow] at hpending
  simpa using hpending

theorem steps_outside {d : Outside} (h : Sound w.books) (hw : outside w d = some w') :
    Steps none w.books w'.books ∧
      (∀ x, (transfersOf w'.books x).length = (transfersOf w.books x).length) ∧
      ∀ x, (refundsOf w'.books x).length = (refundsOf w.books x).length := by
  have hsame : Steps none w.books w.books := h.same rfl rfl rfl rfl
  cases d with
  | pass time =>
    cases hw
    exact ⟨hsame, fun _ => rfl, fun _ => rfl⟩
  | expire qrCodeRef =>
    change (if expirable w qrCodeRef then _ else none) = some w' at hw
    split at hw
    · rename_i hqr
      cases hw
      obtain ⟨hpending, hfree⟩ := expirable_pending hqr
      exact ⟨h.expire hpending hfree, fun _ => rfl, fun _ => rfl⟩
    · cases hw
  | timeout tx =>
    cases hw
    exact ⟨h.close tx, fun _ => rfl, fun _ => rfl⟩
  | work n =>
    obtain ⟨⟨job, p⟩, -, rfl⟩ := Option.map_eq_some_iff.mp hw
    unfold pay
    cases transferOf job with
    | some redemptionId =>
      exact ⟨h.markApplied redemptionId p.source p.target p.tokenAmount, fun _ => rfl, fun _ => rfl⟩
    | none => exact ⟨h.same rfl rfl rfl rfl, fun _ => rfl, fun _ => rfl⟩
  | enqueue data =>
    change (if transferOf data = none ∧ refundOf data = none then _ else none) = some w' at hw
    split at hw
    · rename_i hother
      cases hw
      refine ⟨h.same rfl rfl rfl rfl, fun x => ?_, fun x => ?_⟩
      · rw [transfersOf, length_append, hother.1]
        rfl
      · rw [refundsOf, length_append, hother.2]
        rfl
    · cases hw
  | credit wallet amount =>
    cases hw
    exact ⟨h.same rfl rfl rfl rfl, fun _ => rfl, fun _ => rfl⟩
  | debit wallet amount =>
    change (if amount ≤ w.books.chain wallet then _ else none) = some w' at hw
    split at hw
    · cases hw
      exact ⟨h.same rfl rfl rfl rfl, fun _ => rfl, fun _ => rfl⟩
    · cases hw
  | amend users stores books =>
    cases hw
    exact ⟨h.same rfl rfl rfl rfl, fun _ => rfl, fun _ => rfl⟩

theorem kept_outside {d : Outside} (h : Kept w.books st) (hw : outside w d = some w') :
    Kept w'.books st := by
  obtain ⟨hsteps, htransfers, -⟩ := steps_outside h.sound hw
  refine ⟨hsteps.sound, fun k s hs => (h.knows k s hs).steps hsteps fun _ _ he => (by cases he),
    h.apart, h.transfers.mono (fun x hx => hsteps.confirmed hx) htransfers⟩

/-! ### Refunds in their turn -/

theorem status_create (qr storeId : String) (amount : ℚ) (x : String) :
    statusOf (b.createRedemption qr storeId amount) x = statusOf b x ∨
      statusOf (b.createRedemption qr storeId amount) x = some .pending := by
  unfold StoreBooks.World.createRedemption
  split
  · split
    · exact .inl rfl
    · unfold statusOf StoreBooks.World.findRedemption
      rw [List.find?_append]
      cases hx : b.redemptions.find? fun row => row.qrCodeRef == x with
      | some row => exact .inl rfl
      | none =>
        by_cases hqr : qr = x
        · exact .inr (by simp [hqr])
        · exact .inl (by simp [hqr])
  · exact .inl rfl

theorem status_effect (i : StoreBooks.Op) (x : String) :
    statusOf (b.effect o i) x = statusOf b x ∨ statusOf (b.effect o i) x = some .pending := by
  cases i with
  | createRedemption storeId amount => exact status_create o.id storeId amount x
  | createStoreProfile userId =>
    change statusOf (b.createStoreProfile o.id userId) x = statusOf b x ∨ _
    unfold StoreBooks.World.createStoreProfile
    split <;> exact .inl rfl
  | createSettlement storeId amount =>
    change statusOf (b.createSettlement o.id storeId amount) x = statusOf b x ∨ _
    unfold StoreBooks.World.createSettlement
    split
    · split <;> exact .inl rfl
    · exact .inl rfl
  | _ => exact .inl rfl

theorem status_books {i : StoreBooks.Op} (x : String) :
    statusOf (b.after i o) x = statusOf b x ∨ statusOf (b.after i o) x = some .pending ∨
      (∃ tx, i = .commit tx) ∧ statusOf (b.after i o) x = some .completed := by
  have hupdate {d : Delivery} {f : StoreBooks.World → StoreBooks.World}
      (hf : statusOf (f b) x = statusOf b x) : statusOf (b.update d f) x = statusOf b x :=
    StoreBooks.World.update_elim (p := fun b' => statusOf b' x = statusOf b x) rfl hf
  unfold StoreBooks.World.after
  split
  · refine .inl ?_
    split
    · refine hupdate ?_
      unfold StoreBooks.World.lockUser
      split <;> rfl
    · rfl
  · refine .inl ?_
    split
    · refine hupdate ?_
      unfold StoreBooks.World.lockRedemption
      split <;> rfl
    · rfl
  · refine .inl ?_
    split
    · refine hupdate ?_
      unfold StoreBooks.World.completeRedemption
      split
      · split <;> rfl
      · rfl
    · rfl
  · split <;> exact .inl rfl
  · rename_i tx
    split
    · change statusOf (b.publish tx) x = _ ∨ statusOf (b.publish tx) x = _ ∨
        _ ∧ statusOf (b.publish tx) x = _
      rcases hc : b.transactions tx with _ | _ | c
      · rw [StoreBooks.World.publish, hc]
        exact .inl rfl
      · rw [StoreBooks.World.publish, hc]
        exact .inl rfl
      · rw [statusOf_publish hc]
        cases statusOf b x with
        | none => exact .inl rfl
        | some old =>
          by_cases hx : x = c.qrCodeRef
          · exact .inr (.inr ⟨⟨tx, rfl⟩, congrArg some (if_pos hx)⟩)
          · exact .inl (congrArg some (if_neg hx))
    · exact .inl rfl
  · exact .inl rfl
  · rcases status_effect (b := b) (o := o) _ x with hsame | hpending
    · exact .inl (hupdate hsame)
    · rw [StoreBooks.World.update]
      split
      · exact .inr (.inl hpending)
      · exact .inl rfl

def transferred (b : StoreBooks.World) (qrCodeRef : String) : Bool :=
  (b.findRedemption qrCodeRef).any RedemptionTransaction.applied

theorem Steps.transferred (h : Steps mine b b') (hqr : transferred b qr = true) :
    transferred b' qr = true := by
  unfold RefundRaces.transferred at hqr ⊢
  have hmoves := h.moves qr
  generalize b.findRedemption qr = old at hmoves hqr
  generalize b'.findRedemption qr = new at hmoves ⊢
  cases hmoves with
  | applied row => rfl
  | created row => cases hqr
  | _ => exact hqr

theorem Steps.refunded (h : Steps mine b b') (hqr : statusOf b qr = some .refunded) :
    statusOf b' qr = some .refunded := by
  unfold statusOf at hqr ⊢
  have hmoves := h.moves qr
  generalize b.findRedemption qr = old at hmoves hqr
  generalize b'.findRedemption qr = new at hmoves ⊢
  cases hmoves with
  | refunded row => rfl
  | created row => cases hqr
  | completed row userId amount hpending => simp [hpending] at hqr
  | expired row hpending => simp [hpending] at hqr
  | _ => exact hqr

structure Refunds (b : StoreBooks.World) (st : ℕ → Option Stage) : Prop where
  orderly : Orderly (fun qr => statusOf b qr = some .refunded) (fun qr => (refundsOf b qr).length)
    (returned st)
  paid : ∀ qr, statusOf b qr = some .refunded → transferred b qr = true

/-- The redemption is COMPLETED, and its transfer has been applied. -/
def refundable (b : StoreBooks.World) (qrCodeRef : String) : Bool :=
  (b.findRedemption qrCodeRef).any fun row => row.status == .completed && row.applied

theorem refundable_iff : refundable b qr = true ↔
    statusOf b qr = some .completed ∧ transferred b qr = true := by
  unfold refundable statusOf transferred
  cases b.findRedemption qr <;> simp

def inTurn (c : Race) : RaceEvent → Bool
  | .advance j o =>
    match pending c j with
    | some (.inr (.refund redemptionId)) =>
      !o.delivery.applied || refundable c.world.books redemptionId
    | _ => true
  | _ => true

theorem reply_refund {id : String} {row : RedemptionTransaction}
    (h : w.reply (.inr (.refund id)) o = .ok row) : o.delivery = .done ∧ row.qrCodeRef = id := by
  cases hfound : w.books.findRedemption id with
  | none =>
    simp only [World.reply, hfound] at h
    cases h
  | some old =>
    simp only [World.reply, hfound] at h
    obtain ⟨hdone, rfl⟩ := Delivery.answer_ok h
    have hkey := key_of_findRedemption hfound
    refine ⟨hdone, ?_⟩
    rw [World.refunded, if_pos hkey]
    exact hkey

theorem refunds_written {id : String} (h : Refunds w.books st) (hj : st j = some s)
    (hsteps : Steps none w.books (w.after (.inr (.refund id)) o).books)
    (hturn : o.delivery.applied = true → refundable w.books id = true) :
    Refunds (w.after (.inr (.refund id)) o).books (Function.update st j
      (some (next s (.inr (.refund id)) (w.reply (.inr (.refund id)) o)))) := by
  have hjobs (x : String) : (refundsOf (w.after (.inr (.refund id)) o).books x).length =
      (refundsOf w.books x).length := by
    unfold refundsOf
    rw [queue_after fun data attempts he => by cases he]
  by_cases happlied : o.delivery.applied = true
  swap
  · have hafter : w.after (.inr (.refund id)) o = w := if_neg happlied
    rw [hafter]
    cases hreply : w.reply (.inr (.refund id)) o with
    | error e =>
      rw [show next s (.inr (.refund id)) (.error e) = s from rfl, ← hj, Function.update_eq_self]
      exact h
    | ok row =>
      rw [(reply_refund hreply).1] at happlied
      exact absurd rfl happlied
  have hafter : (w.after (.inr (.refund id)) o) = w.refund id := if_pos happlied
  obtain ⟨hcompleted, hpaid⟩ := refundable_iff.mp (hturn happlied)
  have hstatus (x : String) : statusOf (w.after (.inr (.refund id)) o).books x =
      (statusOf w.books x).map fun old => if x = id then .refunded else old := by
    rw [hafter]
    exact statusOf_refund
  refine ⟨?_, fun x hx => hsteps.transferred ?_⟩
  · cases hreply : w.reply (.inr (.refund id)) o with
    | error e =>
      rw [returned_keep hj (t := next s (.inr (.refund id)) (.error e)) rfl]
      exact h.orderly.mono (fun x hx => hsteps.refunded hx) hjobs
    | ok row =>
      have hkey := (reply_refund hreply).2
      rw [returned_update]
      change Orderly _ _ (Function.update (returned st) j (some row.qrCodeRef))
      rw [hkey]
      refine (h.orderly.incur ?_ (fun x hx => hsteps.refunded hx) ?_ j).mono (fun _ hx => hx) hjobs
      · rw [hcompleted]
        intro he
        cases he
      · rw [hstatus, hcompleted, Option.map_some, if_pos rfl]
  · rw [hstatus] at hx
    by_cases hxid : x = id
    · rw [hxid]
      exact hpaid
    · simp only [if_neg hxid, Option.map_id'] at hx
      exact h.paid x hx

theorem refunded_before (hi : ∀ id, i ≠ .inr (.refund id)) {x : String}
    (hx : statusOf (w.after i o).books x = some .refunded) :
    statusOf w.books x = some .refunded := by
  rcases i with i | i
  · rcases status_books (b := w.books) (i := i) (o := o) x with hsame | hpending | ⟨-, hcompleted⟩
    · exact hsame.symm.trans hx
    · cases hpending.symm.trans hx
    · cases hcompleted.symm.trans hx
  · cases i with
    | refund id => exact absurd rfl (hi id)
    | _ => exact hx

theorem refunds_call (hkept : Kept w.books st) (h : Refunds w.books st) (hj : st j = some s)
    (hallowed : Allowed s i) (hturn : ∀ id, i = .inr (.refund id) → o.delivery.applied = true →
      refundable w.books id = true) :
    Refunds (w.after i o).books (Function.update st j (some (next s i (w.reply i o)))) := by
  have hsteps := steps_after (o := o) hkept.sound (hkept.knows j s hj) hallowed
  by_cases hrefund : ∃ id, i = .inr (.refund id)
  · obtain ⟨id, rfl⟩ := hrefund
    exact refunds_written h hj hsteps (hturn id rfl)
  have hdue (x : String) (hx : statusOf w.books x = some .refunded) :
      statusOf (w.after i o).books x = some .refunded := hsteps.refunded hx
  refine ⟨?_, fun x hx => hsteps.transferred (h.paid x ?_)⟩
  swap
  · exact refunded_before (fun id hi => hrefund ⟨id, hi⟩) hx
  by_cases hreturning : Returning i
  swap
  · rw [returned_keep hj (returning_next hreturning)]
    refine h.orderly.mono hdue fun x => ?_
    unfold refundsOf
    rw [queue_after]
    rintro data attempts rfl
    exact hreturning trivial
  rcases i with i | i
  · cases i with
    | add data attempts =>
      rcases add_cases hallowed with ⟨row, -, -, hjob, hnext⟩ | ⟨row, hrow, -, hjob, hnext⟩
      · rw [hnext, returned_keep hj (t := { s with owing := none }) rfl]
        refine h.orderly.mono hdue fun x => ?_
        rw [refundsOf, queue_add]
        split
        · rw [length_append, hjob]
          rfl
        · rfl
      · rw [hnext, returned_update]
        by_cases happlied : o.delivery.applied
        · have hmine : returned st j = some row.qrCodeRef := by
            rw [returned, hj, Option.bind_some, hrow, Option.map_some]
          have hjobs
            (x : String) : (refundsOf (w.after (.inl (.add data attempts)) o).books x).length =
              (refundsOf w.books x).length + if x = row.qrCodeRef then 1 else 0 := by
            rw [refundsOf, queue_add, if_pos happlied, length_append, hjob]
            simp only [Option.some.injEq, eq_comm]
            rfl
          exact (h.orderly.enqueue hmine hjobs).mono hdue fun _ => rfl
        · refine (h.orderly.release j).mono hdue fun x => ?_
          rw [refundsOf, queue_add, if_neg happlied]
          rfl
    | _ => exact False.elim hreturning
  · cases i with
    | refund id => exact absurd ⟨id, rfl⟩ hrefund
    | _ => exact False.elim hreturning

theorem status_outside {d : Outside} (hw : outside w d = some w') (x : String) :
    statusOf w'.books x = statusOf w.books x ∨ statusOf w'.books x = some .expired := by
  cases d with
  | expire qrCodeRef =>
    change (if expirable w qrCodeRef then _ else none) = some w' at hw
    split at hw
    · cases hw
      have hexpire (row : RedemptionTransaction) : (expired qrCodeRef row).qrCodeRef =
          row.qrCodeRef ∧
          (expired qrCodeRef row).status =
            if row.qrCodeRef = qrCodeRef then .expired else row.status := by
        unfold expired
        split <;> exact ⟨rfl, rfl⟩
      rw [statusOf_map (b := w.books) hexpire rfl]
      cases statusOf w.books x with
      | none => exact .inl rfl
      | some old =>
        by_cases hx : x = qrCodeRef
        · exact .inr (congrArg some (if_pos hx))
        · exact .inl (congrArg some (if_neg hx))
    · cases hw
  | work n =>
    obtain ⟨⟨job, p⟩, -, rfl⟩ := Option.map_eq_some_iff.mp hw
    refine .inl ?_
    unfold pay
    cases transferOf job with
    | some redemptionId =>
      have hmark (row : RedemptionTransaction) :
          (StoreBooks.World.markApplied redemptionId row).qrCodeRef = row.qrCodeRef ∧
            (StoreBooks.World.markApplied redemptionId row).status = row.status := by
        unfold StoreBooks.World.markApplied
        split <;> exact ⟨rfl, rfl⟩
      unfold statusOf
      rw [findRedemption_map (b := w.books) (fun row => (hmark row).1) rfl, Option.map_map]
      exact congrArg (Option.map · _) (funext fun row => (hmark row).2)
    | none => rfl
  | enqueue data =>
    change (if transferOf data = none ∧ refundOf data = none then _ else none) = some w' at hw
    split at hw
    · cases hw
      exact .inl rfl
    · cases hw
  | debit wallet amount =>
    change (if amount ≤ w.books.chain wallet then _ else none) = some w' at hw
    split at hw
    · cases hw
      exact .inl rfl
    · cases hw
  | _ =>
    cases hw
    exact .inl rfl

theorem refunds_outside {d : Outside} (hkept : Kept w.books st) (h : Refunds w.books st)
    (hw : outside w d = some w') : Refunds w'.books st := by
  obtain ⟨hsteps, -, hjobs⟩ := steps_outside hkept.sound hw
  refine ⟨h.orderly.mono (fun x hx => hsteps.refunded hx) hjobs,
    fun x hx => hsteps.transferred (h.paid x ?_)⟩
  rcases status_outside hw x with hsame | hexpired
  · exact hsame.symm.trans hx
  · cases hexpired.symm.trans hx

/-! ### Runs -/

/-- Where a run may begin: the codes are different, no transaction is open, and the jobs enqueued
are those of the redemptions that were confirmed, and of those refunded after their transfer. -/
structure Opening (b : StoreBooks.World) : Prop where
  keys : (b.redemptions.map RedemptionTransaction.qrCodeRef).Nodup
  closed : ∀ tx, b.transactions tx = none
  transfers : ∀ qr, (transfersOf b qr).length ≤ 1 ∧ (transfersOf b qr ≠ [] → Confirmed b qr)
  refunds : ∀ qr, (refundsOf b qr).length ≤ 1 ∧
    (refundsOf b qr ≠ [] → statusOf b qr = some .refunded)
  paid : ∀ qr, statusOf b qr = some .refunded → transferred b qr = true

theorem kept_opening (h : Opening b) : Kept b fun _ => none := by
  refine ⟨⟨h.keys, fun tx ht => ?_, fun tx c hc => ?_⟩, fun j s hs => (by cases hs),
    fun k l t u tx hs => (by cases hs), fun qr => (h.transfers qr).1, fun qr hqr => ?_,
    fun j k hj => (by cases hj), fun j k hj => (by cases hj), fun i j k hi => (by cases hi)⟩
  · rw [StoreBooks.World.isOpen, h.closed] at ht
    cases ht
  · rw [h.closed] at hc
    cases hc
  · exact (h.transfers qr).2 (List.ne_nil_of_length_pos (Nat.pos_of_ne_zero hqr))

theorem refunds_opening (h : Opening b) : Refunds b fun _ => none := by
  refine ⟨⟨fun qr => (h.refunds qr).1, fun qr hqr => ?_, fun j k hj => (by cases hj),
    fun j k hj => (by cases hj), fun i j k hi => (by cases hi)⟩, h.paid⟩
  exact (h.refunds qr).2 (List.ne_nil_of_length_pos (Nat.pos_of_ne_zero hqr))

theorem follows_program (svc : WalletBalance.Service) (caller : Caller) :
    Keeps protocol (fun _ _ => True) .first (program svc caller).run :=
  (settles_program svc caller).mono (fun _ _ _ => trivial) fun _ _ _ => trivial

theorem run_kept {es : List RaceEvent} {c : Race} (hopening : Opening w.books)
    (hrun : run (system svc).step (quiescent w) es = some c) : Kept c.world.books (stages c) := by
  refine run_stages (S := system svc) (C := fun _ _ => True) (I := fun w st => Kept w.books st)
    (fun caller => follows_program svc caller) (fun w st j h hj => kept_start h hj)
    (fun c j o s i h hj _ hallowed _ => kept_call h hj hallowed) (fun c j h _ => kept_stop h)
    (fun c d w h _ hw => kept_outside h hw) (fun j t ht => by cases ht) (kept_opening hopening)
    (along_iff.mpr fun _ _ _ _ _ _ => trivial) hrun

theorem returned_first (hj : st j = none) :
    returned (Function.update st j (some .first)) = returned st := by
  rw [returned_update, Function.update_eq_self_iff, returned, hj]
  rfl

theorem run_refunds {es : List RaceEvent} {c : Race} (hopening : Opening w.books)
    (hturn : Along (system svc).step (fun c e => inTurn c e = true) (quiescent w) es)
    (hrun : run (system svc).step (quiescent w) es = some c) :
    Refunds c.world.books (stages c) := by
  have hboth : Kept c.world.books (stages c) ∧ Refunds c.world.books (stages c) := by
    refine run_stages (S := system svc) (C := fun c e => inTurn c e = true)
      (I := fun w st => Kept w.books st ∧ Refunds w.books st)
      (fun caller => follows_program svc caller) ?_ ?_ ?_ ?_ (fun j t ht => by cases ht)
      ⟨kept_opening hopening, refunds_opening hopening⟩ hturn hrun
    · rintro w st j ⟨hkept, h⟩ hj
      exact ⟨kept_start hkept hj, returned_first hj ▸ h.orderly, h.paid⟩
    · rintro c j o s i ⟨hkept, h⟩ hj hi hallowed hC
      refine ⟨kept_call hkept hj hallowed, refunds_call hkept h hj hallowed ?_⟩
      rintro id rfl happlied
      simpa [inTurn, hi, happlied] using hC
    · rintro c j ⟨hkept, h⟩ -
      refine ⟨kept_stop hkept, ?_, h.paid⟩
      rw [returned_update]
      exact h.orderly.release j
    · rintro c d w ⟨hkept, h⟩ - hw
      exact ⟨kept_outside hkept hw, refunds_outside hkept h hw⟩
  exact hboth.2

theorem moves_step {es : List RaceEvent} {c c' : Race} {e : RaceEvent} (hopening : Opening w.books)
    (hrun : run (system svc).step (quiescent w) es = some c)
    (hstep : (system svc).step c e = some c') (qr : String) :
    Moves (c.world.books.findRedemption qr) (c'.world.books.findRedemption qr) := by
  have hkept := run_kept hopening hrun
  cases e with
  | start j caller =>
    obtain ⟨-, rfl⟩ := step_start.mp hstep
    exact .same _
  | advance j o =>
    obtain ⟨s, i, k, ht, rfl⟩ := step_advance.mp hstep
    have hends := run_ends (fun caller => follows_program svc caller)
      (fun j t ht => by cases ht) hrun j _ ht
    exact (steps_after hkept.sound (hkept.knows j s (stages_eq ht)) hends.1).moves qr
  | stop j =>
    obtain ⟨-, rfl⟩ := step_stop.mp hstep
    exact .same _
  | outside d =>
    obtain ⟨w, hw, rfl⟩ := step_outside.mp hstep
    exact (steps_outside hkept.sound hw).1.moves qr

def rank : Option RedemptionStatus → ℕ
  | none => 0
  | some .pending => 1
  | some .completed => 2
  | some .cancelled => 2
  | some .expired => 2
  | some .refunded => 3

theorem Moves.rank {old new : Option RedemptionTransaction} (h : Moves old new) :
    new.map RedemptionTransaction.status = old.map RedemptionTransaction.status ∨
      rank (old.map RedemptionTransaction.status) <
        rank (new.map RedemptionTransaction.status) := by
  cases h with
  | same => exact .inl rfl
  | created row hpending hu =>
    rw [Option.map_some, hpending]
    exact .inr (by decide)
  | completed row userId amount hpending =>
    rw [Option.map_some, Option.map_some, hpending]
    exact .inr (show 1 < 2 by decide)
  | expired row hpending =>
    rw [Option.map_some, Option.map_some, hpending]
    exact .inr (show 1 < 2 by decide)
  | refunded row hstatus =>
    rw [Option.map_some, Option.map_some]
    rcases hstatus with hstatus | hstatus <;> rw [hstatus]
    · exact .inr (show 2 < 3 by decide)
    · exact .inl rfl
  | applied row => exact .inl rfl

def entering (svc : WalletBalance.Service) (status : RedemptionStatus) (qrCodeRef : String)
    (c : Race) (e : RaceEvent) : Option Unit :=
  match (system svc).step c e with
  | some c' =>
    if statusOf c.world.books qrCodeRef ≠ some status ∧
        statusOf c'.world.books qrCodeRef = some status then some ()
    else none
  | none => none

def PaidBack (c : Race) (e : RaceEvent) : Prop :=
  ∀ n job p redemptionId, e = .outside (.work n) → payable c.world n = some (job, p) →
    refundOf job = some redemptionId → transferred c.world.books redemptionId = true

theorem paidBack {c : Race} {e : RaceEvent} (h : Refunds c.world.books st) : PaidBack c e := by
  rintro n job p id - hjob hid
  obtain ⟨job', hmem, hjob⟩ := Option.bind_eq_some_iff.mp hjob
  obtain ⟨p', -, hjob⟩ := Option.bind_eq_some_iff.mp hjob
  split at hjob
  · cases hjob
    refine h.paid id (h.orderly.done id ?_)
    have hin : job ∈ refundsOf c.world.books id :=
      List.mem_filter.mpr ⟨List.mem_of_getElem? hmem, by simp [hid]⟩
    exact (List.length_pos_of_mem hin).ne'
  · cases hjob

/-- Along every run a redemption goes by its machine, enters each status once at most and gets one
transfer at most; where each refund is written in its turn, it gets one refund at most too, and
that moves its tokens after the transfer has. -/
theorem redemptions_in_order {es : List RaceEvent} {c : Race} (hopening : Opening w.books)
    (hrun : run (system svc).step (quiescent w) es = some c) :
    Along (system svc).step (fun c e => ∀ c', (system svc).step c e = some c' → ∀ qr,
      Moves (c.world.books.findRedemption qr) (c'.world.books.findRedemption qr)) (quiescent w) es ∧
    (∀ qr status,
      (trace (system svc).step (entering svc status qr) (quiescent w) es).length ≤ 1) ∧
    (∀ qr, (transfersOf c.world.books qr).length ≤ 1) ∧
    (Along (system svc).step (fun c e => inTurn c e = true) (quiescent w) es →
      (∀ qr, (refundsOf c.world.books qr).length ≤ 1) ∧
        Along (system svc).step PaidBack (quiescent w) es) := by
  refine ⟨along_iff.mpr fun p e q t _ hprefix c' hstep qr => moves_step hopening hprefix hstep qr,
    fun qr status => ?_, fun qr => (run_kept hopening hrun).transfers.single qr, fun hturn => ?_⟩
  · refine trace_once (f := fun c => rank (statusOf c.world.books qr))
      (n := rank (some status)) ?_ hrun
    rintro c e c' ⟨p, hprefix⟩ hstep
    have hrank := (moves_step hopening hprefix hstep qr).rank
    refine ⟨?_, fun henters => ?_⟩
    · rcases hrank with hsame | hless
      · exact (congrArg rank hsame).ge
      · exact hless.le
    · rw [entering, hstep] at henters
      simp only [ne_eq, ite_eq_right_iff, reduceCtorEq, imp_false, not_not] at henters
      obtain ⟨hbefore, hafter⟩ := henters
      rcases hrank with hsame | hless
      · exact absurd (hsame.symm.trans hafter) hbefore
      · refine ⟨?_, ?_⟩
        · rw [← hafter]
          exact hless
        · rw [hafter]
  · refine ⟨fun qr => (run_refunds hopening hturn hrun).orderly.single qr, ?_⟩
    refine along_iff.mpr fun p e q t hsplit hprefix => ?_
    subst hsplit
    exact paidBack (run_refunds hopening (along_append hturn).1 hprefix)

/-! ### Runs of one code -/

theorem opening_of_pending (hkeys : (b.redemptions.map RedemptionTransaction.qrCodeRef).Nodup)
    (hclosed : ∀ tx, b.transactions tx = none) (hqueue : b.queue = [])
    (hrows : ∀ row ∈ b.redemptions, row.status = .pending) : Opening b := by
  have hnone (qr : String) : statusOf b qr ≠ some .refunded := by
    intro hqr
    obtain ⟨row, hrow, hstatus⟩ := Option.map_eq_some_iff.mp hqr
    rw [hrows row (mem_of_findRedemption hrow)] at hstatus
    cases hstatus
  refine ⟨hkeys, hclosed, fun qr => ?_, fun qr => ?_, fun qr hqr => absurd hqr (hnone qr)⟩
  · rw [transfersOf, hqueue]
    exact ⟨Nat.zero_le _, fun h => absurd rfl h⟩
  · rw [refundsOf, hqueue]
    exact ⟨Nat.zero_le _, fun h => absurd rfl h⟩

/-- So many calls of a program are answered; the node shows a hundred tokens. -/
def answered (j calls : ℕ) : List RaceEvent :=
  List.replicate calls (.advance j ⟨.done, some (10 ^ 9), BalanceReports.noRate, ""⟩)

def confirmation (j : ℕ) : RaceEvent :=
  .start j (.redemption (.confirmRedemption "household" "code" (some ⟨true, none, none⟩)))

def refundRequest (j : ℕ) : RaceEvent := .start j (.refundRedemption "store-user" "code")

def fiftyTokens : RedemptionTransaction := ⟨"store", none, 50, "code", .pending, false⟩

def counterWorld : World := ⟨StoreBooks.sampleWorld [fiftyTokens] [] (10 ^ 9), fun _ => 0, 0⟩

theorem counterWorld_opening : Opening counterWorld.books :=
  opening_of_pending (by decide) (fun _ => rfl) rfl fun row hrow => by
    rw [List.mem_singleton.mp hrow]
    rfl

/-- The code is confirmed, and the tokens moved; then it is refunded, and they are moved back. -/
def confirmedThenRefunded : List RaceEvent :=
  confirmation 0 :: answered 0 14 ++ .outside (.work 0) :: refundRequest 1 :: answered 1 9 ++
    [.outside (.work 1)]

theorem redemptions_in_order_refunded : ∃ c,
    run (system BalanceReports.sampleService).step (quiescent counterWorld) confirmedThenRefunded =
      some c ∧ (∀ qr, (refundsOf c.world.books qr).length ≤ 1) ∧
      Along (system BalanceReports.sampleService).step PaidBack (quiescent counterWorld)
        confirmedThenRefunded := by
  obtain ⟨c, hc⟩ :=
    Option.isSome_iff_exists.mp (show (run (system BalanceReports.sampleService).step
    (quiescent counterWorld) confirmedThenRefunded).isSome = true by decide +kernel)
  obtain ⟨-, -, -, hrefunds⟩ := redemptions_in_order counterWorld_opening hc
  exact ⟨c, hc, hrefunds (by decide +kernel)⟩

/-- Both refunds have read the redemption, and checked the balance, before either writes. -/
def refundedTwice : List RaceEvent :=
  confirmation 0 :: answered 0 14 ++ refundRequest 1 :: refundRequest 2 :: answered 1 6 ++
    answered 2 6 ++ answered 1 3 ++ answered 2 3

/-- The redemption is refunded while its transfer is still waiting; the store has tokens of
others. -/
def refundedAtOnce : List RaceEvent :=
  .outside (.credit "store-wallet" (10 ^ 9)) :: confirmation 0 :: answered 0 14 ++
    refundRequest 1 :: answered 1 9

theorem refunds_out_of_turn : Opening counterWorld.books ∧
    (∃ c, run (system BalanceReports.sampleService).step (quiescent counterWorld) refundedTwice =
      some c ∧ (refundsOf c.world.books "code").length = 2) ∧
    ∃ c c', run (system BalanceReports.sampleService).step (quiescent counterWorld) refundedAtOnce =
      some c ∧ (system BalanceReports.sampleService).step c (.outside (.work 1)) = some c' ∧
      (c.world.books.queue[1]?).bind refundOf = some "code" ∧
      transferred c'.world.books "code" = false := by
  refine ⟨counterWorld_opening, ?_, ?_⟩
  · have hrun : (run (system BalanceReports.sampleService).step (quiescent counterWorld)
        refundedTwice).map (fun c => (refundsOf c.world.books "code").length) = some 2 := by
      decide +kernel
    obtain ⟨c, hc, hlength⟩ := Option.map_eq_some_iff.mp hrun
    exact ⟨c, hc, hlength⟩
  · have hrun : ((run (system BalanceReports.sampleService).step (quiescent counterWorld)
        refundedAtOnce).bind fun c =>
          ((system BalanceReports.sampleService).step c (.outside (.work 1))).map fun c' =>
            ((c.world.books.queue[1]?).bind refundOf, transferred c'.world.books "code")) =
        some (some "code", false) := by decide +kernel
    obtain ⟨c, hc, hrun⟩ := Option.bind_eq_some_iff.mp hrun
    obtain ⟨c', hc', hpair⟩ := Option.map_eq_some_iff.mp hrun
    obtain ⟨hjob, hnone⟩ := Prod.mk.inj hpair
    exact ⟨c, c', hc, hc', hjob, hnone⟩

end Livora.RefundRaces
