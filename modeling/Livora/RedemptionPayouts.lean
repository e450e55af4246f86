import Livora.AnsweredRuns
import Livora.RefundRaces

/-! A confirmed redemption and the transfer that moves its tokens. The transaction of the
confirmation commits first; the job is enqueued after an event, and until then the
confirmation owes it. Where no confirmation is cut off there, every COMPLETED redemption
has its one transfer, or a confirmation that enqueues it as soon as its calls are
answered. -/

namespace Livora.RedemptionPayouts

open TransitionRuns EffectPrograms ProgramPools ProgramPools.System PromisedJobs AnsweredRuns
open StoreRefunds RefundStages RefundRaces
open StoreBooks (RedemptionTransaction Failure Outcome)
open BackOffice (JobData)

variable {svc : WalletBalance.Service} {w w' : World} {b b' : StoreBooks.World}
  {st : ℕ → Option Stage} {j tx : ℕ} {s : Stage} {i : Op} {o : Outcome} {mine : Option ℕ}
  {qr : String}

/-- The redemption was confirmed and has not been refunded. -/
def Due (b : StoreBooks.World) (qrCodeRef : String) : Prop := statusOf b qrCodeRef = some .completed

def jobs (b : StoreBooks.World) (qrCodeRef : String) : ℕ := (transfersOf b qrCodeRef).length

/-- A commit that is carried out is answered, and where the transfer is owed its event and its job
are taken. -/
def UncutCall (s : Stage) (i : Op) (o : Outcome) : Prop :=
  match i with
  | .inl (.commit _) => o.delivery.applied = true → o.delivery = .done
  | .inl (.emit _ _) => s.owing ≠ none → o.delivery = .done
  | .inl (.add _ _) => s.owing ≠ none → o.delivery.applied = true
  | _ => True

def Uncut (c : Race) : RaceEvent → Prop
  | .advance j o => ∀ s i, stages c j = some s → pending c j = some i → UncutCall s i o
  | .stop j => ∀ s, stages c j = some s → s.owing = none
  | _ => True

/-! ### Transactions that have ended -/

/-- Whoever owes a transfer has ended its transaction. -/
def Spent (b : StoreBooks.World) (st : ℕ → Option Stage) : Prop :=
  ∀ j s, st j = some s → s.owing ≠ none → ∃ tx, s.tx = some tx ∧ b.isOpen tx = false

theorem closed_steps (hsteps : Steps mine b b') (htx : tx < b.nextTx) (hmine : mine ≠ some tx)
    (hclosed : b.isOpen tx = false) : b'.isOpen tx = false := by
  by_contra hopen
  have hsame := hsteps.others tx htx hmine (Bool.eq_true_of_not_eq_false hopen)
  rw [StoreBooks.World.isOpen, hsame] at hopen
  exact hopen hclosed

theorem closed_after (h : Sound w.books) (hk : Knows w.books s) (hallowed : Allowed s i)
    (htx : tx < w.books.nextTx) (hclosed : w.books.isOpen tx = false) :
    (w.after i o).books.isOpen tx = false := by
  by_cases hmine : writes i = some tx
  · rcases i with i | i
    · cases i with
      | completeRedemption t qr userId amount =>
        cases hmine
        have hafter : (w.after (.inl (.completeRedemption tx qr userId amount)) o).books =
            w.books :=
          if_neg (by rw [hclosed]; exact Bool.false_ne_true)
        rw [hafter]
        exact hclosed
      | _ => cases hmine
    · cases hmine
  · exact closed_steps (steps_after h hk hallowed) htx hmine hclosed

theorem closed_close (b : StoreBooks.World) (tx : ℕ) : (b.close tx).isOpen tx = false := by
  rw [StoreBooks.World.isOpen, StoreBooks.World.close]
  simp only [Function.update_self, Option.isSome_none]

theorem owing_of_next {r : Except Failure (Reply i)} (h : (next s i r).owing ≠ none) :
    s.owing ≠ none ∨ ∃ tx, i = .inl (.commit tx) := by
  by_cases hi : Owing i
  · rcases i with i | i
    · cases i with
      | commit tx => exact Or.inr ⟨tx, rfl⟩
      | emit userId event =>
        cases r with
        | ok u => exact Or.inl h
        | error e => exact absurd rfl h
      | add data attempts => cases data <;> first | exact Or.inl h | exact absurd rfl h
      | _ => exact False.elim hi
    · exact False.elim hi
  · rw [owing_next hi] at h
    exact Or.inl h

theorem tx_of_next {r : Except Failure (Reply i)} (h : i ≠ .inl .begin) :
    (next s i r).tx = s.tx := by
  rcases i with i | i
  · cases i with
    | begin => exact absurd rfl h
    | completeRedemption tx qr userId amount => rcases r with e | ⟨_ | _⟩ <;> rfl
    | readRedemption tx qr => cases r <;> rfl
    | commit tx => cases r <;> rfl
    | emit userId event => cases r <;> rfl
    | add data attempts => cases data <;> rfl
    | _ => rfl
  · cases i with
    | findRefundable redemptionId => rcases r with e | ⟨_ | redemption⟩ <;> rfl
    | refund redemptionId => cases r <;> rfl
    | _ => rfl

theorem spent_call (hkept : Kept w.books st) (h : Spent w.books st) (hj : st j = some s)
    (hallowed : Allowed s i) :
    Spent (w.after i o).books (Function.update st j (some (next s i (w.reply i o)))) := by
  have hk := hkept.knows j s hj
  intro k t hs howing
  by_cases hkj : k = j
  · subst hkj
    rw [Function.update_self] at hs
    cases hs
    rcases owing_of_next howing with hold | ⟨tx, rfl⟩
    · obtain ⟨tx, htx, hclosed⟩ := h k s hj hold
      have hbegun : i ≠ .inl .begin := by
        intro hi
        subst hi
        have hfirst : s.tx = none := hallowed
        rw [hfirst] at htx
        cases htx
      exact ⟨tx, (tx_of_next hbegun).trans htx,
        closed_after hkept.sound hk hallowed (hk.fresh tx htx) hclosed⟩
    · refine ⟨tx, ?_, closed_close _ tx⟩
      have htx : s.tx = some tx := hallowed.1
      cases w.reply (.inl (.commit tx)) o <;> exact htx
  · rw [Function.update_of_ne hkj] at hs
    obtain ⟨tx, htx, hclosed⟩ := h k t hs howing
    refine ⟨tx, htx, closed_steps (steps_after hkept.sound hk hallowed)
      ((hkept.knows k t hs).fresh tx htx)
      (fun hwrites => ?_) hclosed⟩
    exact hkj (hkept.apart k j t s tx hs hj htx (writes_allowed hallowed hwrites))

/-! ### The transfers that are owed -/

theorem due_after {x : String} (hi : ∀ tx, i ≠ .inl (.commit tx)) (h : Due (w.after i o).books x) :
    Due w.books x := by
  rcases i with i | i
  · have hstatus : statusOf (w.books.after i o) x = some .completed := h
    rcases status_books (b := w.books) (o := o)
      (i := i) x with hsame | hpending | ⟨⟨tx, hcommit⟩, -⟩
    · exact hsame.symm.trans hstatus
    · rw [hpending] at hstatus
      cases hstatus
    · exact absurd (congrArg Sum.inl hcommit) (hi tx)
  · cases i with
    | refund redemptionId =>
      change statusOf (if o.delivery.applied then w.refund redemptionId else w).books x = _ at h
      split at h
      · rw [statusOf_refund] at h
        obtain ⟨old, hold, hnew⟩ := Option.map_eq_some_iff.mp h
        split at hnew
        · cases hnew
        · exact hold.trans (congrArg some hnew)
      · exact h
    | _ => exact h

theorem due_failed {e : Failure} {x : String}
    (huncut : o.delivery.applied = true → o.delivery = .done)
    (hreply : b.reply (.commit tx) o = .error e) (h : Due (b.after (.commit tx) o) x) :
    Due b x := by
  have hafter : statusOf (if o.delivery.applied then b.publish tx else b) x = some .completed := h
  split at hafter
  · rename_i happlied
    have hclosed : b.isOpen tx ≠ true := by
      intro hopen
      change (if b.isOpen tx then o.delivery.answer Failure.outside () else _) = _ at hreply
      rw [if_pos hopen, huncut happlied] at hreply
      cases hreply
    have hnone : b.transactions tx = none := Option.not_isSome_iff_eq_none.mp hclosed
    rw [StoreBooks.World.publish, hnone] at hafter
    exact hafter
  · exact hafter

theorem met_call (hkept : Kept w.books st) (hspent : Spent w.books st)
    (h : Met (Due w.books) (jobs w.books) (owed st)) (hj : st j = some s) (hallowed : Allowed s i)
    (huncut : UncutCall s i o) : Met (Due (w.after i o).books) (jobs (w.after i o).books)
      (owed (Function.update st j (some (next s i (w.reply i o))))) := by
  have hqueue (hadd : ∀ data attempts, i ≠ .inl (.add data attempts)) (x : String) :
      jobs (w.after i o).books x = jobs w.books x := transfersOf_congr (queue_after hadd) x
  have howed : owed st j = s.owing.map RedemptionTransaction.qrCodeRef := by
    rw [owed, hj]
    rfl
  by_cases hi : Owing i
  swap
  · have hadd : ∀ data attempts, i ≠ .inl (.add data attempts) := fun _ _ he => hi (he ▸ trivial)
    rw [owed_keep hj (owing_next hi)]
    exact h.mono (fun x => due_after fun tx he => hi (he ▸ trivial)) (hqueue hadd)
  rcases i with i | i
  swap
  · exact False.elim hi
  cases i with
  | commit tx =>
    have hadd : ∀ data attempts, Sum.inl (.commit tx) ≠ (Sum.inl (.add data attempts) : Op) :=
      fun _ _ he => by cases he
    cases hreply : w.reply (.inl (.commit tx)) o with
    | error e =>
      rw [owed_keep hj (t := next s (.inl (.commit tx)) (.error e)) rfl]
      exact h.mono (fun x => due_failed huncut hreply) (hqueue hadd)
    | ok u =>
      have hfree : s.owing = none := by
        by_contra howing
        obtain ⟨tx', htx, hclosed⟩ := hspent j s hj howing
        cases htx.symm.trans hallowed.1
        obtain ⟨hopen, -⟩ :=
          books_within (show w.books.within tx o.delivery () = .ok () from hreply)
        rw [hclosed] at hopen
        cases hopen
      obtain ⟨row, hrow, -, -, hdue⟩ :=
        committed hkept.sound (hkept.knows j s hj) hallowed.1 hallowed.2 hreply
      have hnext : (next s (.inl (.commit tx)) (.ok u)).owing = some row := by
        change s.row.join = some row
        rw [hrow]
        rfl
      rw [owed_update, Option.bind_some, hnext]
      exact (h.incur (howed.trans (by rw [hfree]; rfl)) hdue).mono (fun _ hx => hx) (hqueue hadd)
  | emit userId event =>
    have hadd : ∀ data attempts, Sum.inl (.emit userId event) ≠
        (Sum.inl (.add data attempts) : Op) :=
      fun _ _ he => by cases he
    have hkeep : (next s (.inl (.emit userId event))
      (w.reply (.inl (.emit userId event)) o)).owing =
        s.owing := by
      cases hreply : w.reply (.inl (.emit userId event)) o with
      | ok u => rfl
      | error e =>
        by_contra hne
        have hdone : o.delivery = .done := huncut fun hnone => hne (by rw [hnone]; rfl)
        rw [show w.reply (.inl (.emit userId event)) o = o.delivery.answer Failure.outside
          () from rfl, hdone] at hreply
        cases hreply
    rw [owed_keep hj hkeep]
    exact h.mono (fun x => due_after fun tx he => by cases he) (hqueue hadd)
  | add data attempts =>
    have hdue (x : String)
      (hx : Due (w.after (.inl (.add data attempts)) o).books x) : Due w.books x :=
      due_after (fun tx he => by cases he) hx
    rcases add_cases hallowed with ⟨row, hrow, htransfer, -, hnext⟩ | ⟨row, -, htransfer, -, hnext⟩
    · have happlied : o.delivery.applied = true :=
        huncut (by rw [hrow]; exact Option.some_ne_none _)
      have hjobs (x : String) : jobs (w.after (.inl (.add data attempts)) o).books x =
          jobs w.books x + if x = row.qrCodeRef then 1 else 0 := by
        rw [jobs, transfersOf, queue_add, if_pos happlied, length_append, htransfer]
        simp only [Option.some.injEq, eq_comm]
        rfl
      rw [hnext, owed_update]
      exact (h.enqueue (howed.trans (by rw [hrow]; rfl)) hjobs).mono hdue fun _ => rfl
    · rw [hnext, owed_keep hj (t := { s with returning := none }) rfl]
      refine h.mono hdue fun x => ?_
      rw [jobs, transfersOf, queue_add]
      split
      · rw [length_append, htransfer]
        rfl
      · rfl
  | _ => exact False.elim hi

/-! ### Runs -/

theorem spent_update (h : Spent b st) {t : Option Stage} (ht : ∀ u, t = some u → u.owing = none) :
    Spent b (Function.update st j t) := by
  intro k s hs howing
  by_cases hkj : k = j
  · subst hkj
    rw [Function.update_self] at hs
    exact absurd (ht s hs) howing
  · rw [Function.update_of_ne hkj] at hs
    exact h k s hs howing

structure Bound (b : StoreBooks.World) (st : ℕ → Option Stage) : Prop where
  kept : Kept b st
  spent : Spent b st
  met : Met (Due b) (jobs b) (owed st)

theorem bound_stop (h : Bound b st) (huncut : ∀ s, st j = some s → s.owing = none) :
    Bound b (Function.update st j none) := by
  refine ⟨kept_stop h.kept, spent_update h.spent fun u hu => (by cases hu), ?_⟩
  rw [owed_update]
  refine h.met.release ?_
  rw [owed]
  cases hs : st j with
  | none => rfl
  | some s => rw [Option.bind_some, huncut s hs, Option.map_none]

theorem bound_outside {d : Outside} (h : Bound w.books st) (hw : outside w d = some w') :
    Bound w'.books st := by
  obtain ⟨hsteps, htransfers, -⟩ := steps_outside h.kept.sound hw
  refine ⟨kept_outside h.kept hw, fun k s hs howing => ?_, h.met.mono (fun x hx => ?_) htransfers⟩
  · obtain ⟨tx, htx, hclosed⟩ := h.spent k s hs howing
    exact ⟨tx, htx, closed_steps hsteps ((h.kept.knows k s hs).fresh tx htx)
      (fun he => by cases he) hclosed⟩
  · have hx' : statusOf w'.books x = some .completed := hx
    rcases status_outside hw x with hsame | hexpired
    · exact hsame.symm.trans hx'
    · cases hexpired.symm.trans hx'

def Served (b : StoreBooks.World) : Prop :=
  ∀ qrCodeRef, Due b qrCodeRef → transfersOf b qrCodeRef ≠ []

theorem run_bound {es : List RaceEvent} {c : Race} (hopening : Opening w.books)
    (hserved : Served w.books) (huncut : Along (system svc).step Uncut (quiescent w) es)
    (hrun : run (system svc).step (quiescent w) es = some c) : Bound c.world.books (stages c) := by
  refine run_stages (S := system svc) (C := Uncut) (I := fun w st => Bound w.books st)
    (fun caller => follows_program svc caller) ?_ ?_ (fun c j h hC => bound_stop h hC)
    (fun c d w h _ hw => bound_outside h hw) (fun j t ht => by cases ht) ?_ huncut hrun
  · intro w st j h hj
    refine ⟨kept_start h.kept hj, spent_update h.spent fun u hu => (by cases hu; rfl), ?_⟩
    change Met (Due w.books) (jobs w.books) (owed (Function.update st j (some Stage.first)))
    rw [owed_first hj]
    exact h.met
  · intro c j o s i h hj hi hallowed hC
    exact ⟨kept_call h.kept hj hallowed, spent_call h.kept h.spent hj hallowed,
      met_call h.kept h.spent h.met hj hallowed (hC s i hj hi)⟩
  · refine ⟨kept_opening hopening, fun j s hs => (by cases hs), fun x hx => Or.inl ?_⟩
    exact (List.length_pos_of_ne_nil (hserved x hx)).ne'

/-! ### Confirmations that are answered -/

structure Owes (qrCodeRef : String) (w : World) (s : Stage) : Prop where
  sound : Sound w.books
  knows : Knows w.books s
  ended : ∃ tx, s.tx = some tx ∧ w.books.isOpen tx = false
  owing : ∃ row, s.owing = some row ∧ row.qrCodeRef = qrCodeRef
  unmet : jobs w.books qrCodeRef = 0

theorem owes_call (h : Owes qr w s) (hallowed : Allowed s i) (hdone : o.delivery = .done) :
    jobs (w.after i o).books qr = 1 ∨ Owes qr (w.after i o) (next s i (w.reply i o)) := by
  obtain ⟨tx, htx, hclosed⟩ := h.ended
  obtain ⟨row, howing, hqr⟩ := h.owing
  have hbegun : i ≠ .inl .begin := by
    intro hi
    subst hi
    have hfirst : s.tx = none := hallowed
    rw [hfirst] at htx
    cases htx
  have hgoes (howing' : (next s i (w.reply i o)).owing = some row)
      (hjobs : jobs (w.after i o).books qr = jobs w.books qr) :
      jobs (w.after i o).books qr = 1 ∨ Owes qr (w.after i o) (next s i (w.reply i o)) :=
    Or.inr ⟨(steps_after h.sound h.knows hallowed).sound, knows_next h.sound h.knows hallowed,
      ⟨tx, (tx_of_next hbegun).trans htx,
        closed_after h.sound h.knows hallowed (h.knows.fresh tx htx) hclosed⟩,
      ⟨row, howing', hqr⟩, hjobs.trans h.unmet⟩
  have hqueue (hadd : ∀ data attempts, i ≠ .inl (.add data attempts)) :
      jobs (w.after i o).books qr = jobs w.books qr := transfersOf_congr (queue_after hadd) qr
  by_cases hi : Owing i
  swap
  · exact hgoes ((owing_next hi).trans howing) (hqueue fun _ _ he => hi (he ▸ trivial))
  rcases i with i | i
  swap
  · exact False.elim hi
  cases i with
  | commit t =>
    have hsame : t = tx := Option.some.inj (hallowed.1.symm.trans htx)
    have hreply : w.reply (.inl (.commit t)) o = .error .outside := by
      change (if w.books.isOpen t then _ else _) = _
      rw [hsame, hclosed]
      rfl
    refine hgoes ?_ (hqueue fun _ _ he => by cases he)
    rw [hreply]
    exact howing
  | emit userId event =>
    have hreply : w.reply (.inl (.emit userId event)) o = .ok () := by
      change o.delivery.answer Failure.outside () = _
      rw [hdone]
      rfl
    refine hgoes ?_ (hqueue fun _ _ he => by cases he)
    rw [hreply]
    exact howing
  | add data attempts =>
    have happlied : o.delivery.applied = true := by
      rw [hdone]
      rfl
    have hlength : jobs (w.after (.inl (.add data attempts)) o).books qr =
        jobs w.books qr + if transferOf data = some qr then 1 else 0 := by
      rw [jobs, transfersOf, queue_add, if_pos happlied, length_append]
      rfl
    rcases add_cases hallowed with ⟨row', hrow, htransfer, -, -⟩ | ⟨row', -, htransfer, -, hnext⟩
    · cases howing.symm.trans hrow
      refine Or.inl ?_
      rw [hlength, h.unmet, htransfer, hqr, if_pos rfl]
    · refine hgoes ?_ ?_
      · rw [hnext]
        exact howing
      · rw [hlength, htransfer]
        rfl
  | _ => exact False.elim hi

/-- In a run in which no confirmation is cut off between its commit and its job, a redemption gets
one transfer at most; where it is COMPLETED it has got it, or some confirmation that is answered
goes on to enqueue it. -/
theorem completed_redemptions_paid_out {es : List RaceEvent} {c : Race} (hopening : Opening w.books)
    (hserved : Served w.books) (huncut : Along (system svc).step Uncut (quiescent w) es)
    (hrun : run (system svc).step (quiescent w) es = some c) (qrCodeRef : String) :
    (transfersOf c.world.books qrCodeRef).length ≤ 1 ∧
      (statusOf c.world.books qrCodeRef = some .completed →
        (transfersOf c.world.books qrCodeRef).length = 1 ∨ ∀ o : Outcome, o.delivery = .done →
          Attains (system svc) o c fun w => (transfersOf w.books qrCodeRef).length = 1) := by
  have hbound := run_bound hopening hserved huncut hrun
  have hsingle := hbound.kept.transfers.single qrCodeRef
  refine ⟨hsingle, fun hdue => ?_⟩
  rcases hbound.met qrCodeRef hdue with hjobs | ⟨j, howed⟩
  · change (transfersOf c.world.books qrCodeRef).length ≠ 0 at hjobs
    exact Or.inl (by omega)
  · refine Or.inr fun o hdone => ?_
    have hunmet := hbound.kept.transfers.unmet j qrCodeRef howed
    obtain ⟨row, hrow, hqr⟩ := Option.map_eq_some_iff.mp howed
    obtain ⟨s, hs, howing⟩ := Option.bind_eq_some_iff.mp hrow
    obtain ⟨⟨s', rest⟩, ht, rfl⟩ := Option.map_eq_some_iff.mp hs
    have hends : (system svc).Ends (fun t _ => t.owing = none) c :=
      run_ends (fun caller => settles_program svc caller) (fun j t ht => by cases ht) hrun
    have hended := hbound.spent j _ hs (by rw [howing]; exact Option.some_ne_none _)
    refine attains_of_keeps (D := Owes qrCodeRef) (Q := fun t _ => t.owing = none)
      (fun w s i howes hallowed => owes_call howes hallowed hdone) ?_ ht (hends j _ ht)
      ⟨hbound.kept.sound, hbound.kept.knows j _ hs, hended, ⟨row, howing, hqr⟩, hunmet⟩
    intro w s a hs howes
    obtain ⟨row, howing, -⟩ := howes.owing
    rw [hs] at howing
    cases howing

theorem uncut_answered {n : ℕ} {e : RaceEvent} (he : e ∈ confirmation j :: answered j n)
    (c : Race) :
    Uncut c e := by
  rcases List.mem_cons.mp he with rfl | he
  · trivial
  · cases List.eq_of_mem_replicate he
    intro s i _ _
    rcases i with i | i
    · cases i <;> first | trivial | exact fun _ => rfl
    · trivial

/-- The confirmation has committed, and its event has not been emitted. -/
theorem completed_redemptions_paid_out_committed : ∃ c,
    run (system BalanceReports.sampleService).step (quiescent counterWorld)
        (confirmation 0 :: answered 0 12) = some c ∧
      statusOf c.world.books "code" = some .completed ∧
      Attains (system BalanceReports.sampleService) ⟨.done, some (10 ^ 9),
        BalanceReports.noRate, ""⟩ c
        fun w => (transfersOf w.books "code").length = 1 := by
  have hrun : (run (system BalanceReports.sampleService).step (quiescent counterWorld)
      (confirmation 0 :: answered 0 12)).map (fun c => (statusOf c.world.books "code",
        (transfersOf c.world.books "code").length)) = some (some .completed, 0) := by decide +kernel
  obtain ⟨c, hc, hpair⟩ := Option.map_eq_some_iff.mp hrun
  obtain ⟨hdue, hlength⟩ := Prod.mk.inj hpair
  have hserved : Served counterWorld.books := by
    intro x hx
    obtain ⟨row, hrow, hstatus⟩ := Option.map_eq_some_iff.mp hx
    obtain rfl := List.mem_singleton.mp (mem_of_findRedemption hrow)
    cases hstatus
  have hout := (completed_redemptions_paid_out counterWorld_opening hserved
    (along_of_forall fun e he c => uncut_answered he c) hc "code").2 hdue
  exact ⟨c, hc, hdue, hout.resolve_left (by omega) _ rfl⟩

end Livora.RedemptionPayouts
