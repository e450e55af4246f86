import Livora.AnsweredRuns
import Livora.SettlementRaces

/-! A settlement marked PAID and the transfer that pays it out. The mark is written first,
and the job is enqueued two calls later: in between the payment owes it. Where no mark
is written late and no payment is cut off, every PAID settlement has its one transfer,
or a payment that enqueues it as soon as its calls are answered. -/

namespace Livora.SettlementPayouts

open TransitionRuns EffectPrograms ProgramPools ProgramPools.System AnsweredRuns StoreBooks
open SettlementStages SettlementRaces
open BackOffice (JobData)

variable {svc : WalletBalance.Service} {w : World} {s : Stage} {i : Op} {o : Outcome} {id : String}

def Owing : Op → Prop
  | .updateSettlement _ _ _ => True
  | .emit _ _ => True
  | .add _ _ => True
  | _ => False

theorem owing_next {r : Except Failure (Reply i)} (h : ¬ Owing i) :
    (next s i r).owing = s.owing := by
  cases i with
  | updateSettlement id status receiptUrl => exact absurd trivial h
  | emit userId event => exact absurd trivial h
  | add data attempts => exact absurd trivial h
  | findOwnProfile userId => rcases r with e | ⟨_ | profile⟩ <;> rfl
  | createStoreProfile userId => cases r <;> rfl
  | pendingSettlements storeId => cases r <;> rfl
  | findSettlement id => rcases r with e | ⟨_ | f⟩ <;> rfl
  | _ => rfl

theorem queue_createSettlement (settlementId storeId : String) (amount : ℚ) :
    (w.createSettlement settlementId storeId amount).queue = w.queue := by
  unfold World.createSettlement
  split
  · split <;> rfl
  · rfl

theorem queue_after (h : ∀ data attempts, i ≠ .add data attempts) :
    (w.after i o).queue = w.queue := by
  by_cases hdesk : Desk i
  · cases i with
    | createSettlement storeId amount =>
      exact World.update_elim (p := fun v => v.queue = w.queue) rfl (queue_createSettlement _ _ _)
    | updateSettlement id status receiptUrl =>
      exact World.update_elim (p := fun v => v.queue = w.queue) rfl rfl
    | add data attempts => exact absurd rfl (h data attempts)
    | _ => exact False.elim hdesk
  · exact (sameDesk_after hdesk).queue

def Owes (id : String) (w : World) (s : Stage) : Prop :=
  (∃ row, s.owing = some row ∧ row.id = id) ∧ transfersOf w id = []

theorem owes_call (howes : Owes id w s) (hallowed : Allowed s i) (hdone : o.delivery = .done) :
    (transfersOf (w.after i o) id).length = 1 ∨ Owes id (w.after i o) (next s i (w.reply i o)) := by
  obtain ⟨⟨row, howing, hid⟩, hnone⟩ := howes
  by_cases hi : Owing i
  · cases i with
    | updateSettlement settlementId status receiptUrl =>
      have hfree : s.owing = none := hallowed.1
      rw [hfree] at howing
      cases howing
    | emit userId event =>
      have hreply : w.reply (.emit userId event) o = .ok () := by
        change o.delivery.answer Failure.outside () = _
        rw [hdone]
        rfl
      have hqueue : (w.after (.emit userId event) o).queue = w.queue :=
        queue_after fun _ _ h => by cases h
      refine Or.inr ⟨⟨row, ?_, hid⟩, ?_⟩
      · rw [hreply]
        exact howing
      · rw [transfersOf_congr hqueue]
        exact hnone
    | add data attempts =>
      obtain ⟨row', settlementId, f, source, target, howing', hfound, rfl⟩ := hallowed
      rw [howing] at howing'
      cases howing'
      have hafter : w.after (.add (.settlementTransfer row.id f.storeUser.id source target
          row.tokenAmount) attempts) o = { w with queue := w.queue ++
            [.settlementTransfer row.id f.storeUser.id source target row.tokenAmount] } :=
        if_pos (by rw [hdone]; rfl)
      have hof : ofSettlement id (.settlementTransfer row.id f.storeUser.id source target
          row.tokenAmount) = true := beq_iff_eq.mpr hid
      have happended : transfersOf
        (w.after (.add (.settlementTransfer row.id f.storeUser.id source target
          row.tokenAmount) attempts) o) id =
            [.settlementTransfer row.id f.storeUser.id source target row.tokenAmount] := by
        rw [hafter]
        change (w.queue ++ _).filter (ofSettlement id) = _
        rw [List.filter_append, show w.queue.filter (ofSettlement id) = [] from hnone,
          List.filter_cons_of_pos hof, List.filter_nil, List.nil_append]
      rw [happended]
      exact Or.inl rfl
    | _ => exact False.elim hi
  · have hqueue : (w.after i o).queue = w.queue := queue_after fun data attempts h =>
      hi (h ▸ trivial)
    refine Or.inr ⟨⟨row, (owing_next hi).trans howing, hid⟩, ?_⟩
    rw [transfersOf_congr hqueue]
    exact hnone

/-- In a run in which each status is written while it is still the one read and no payment is cut
off, a settlement gets one transfer at most; where it is PAID it has got it, or some payment
that is answered goes on to enqueue it. -/
theorem paid_settlements_paid_out {es : List RaceEvent} {c : Race} (hopening : Opening w)
    (hfresh : Along (system svc).step Fresh (quiescent w) es)
    (hrun : run (system svc).step (quiescent w) es = some c) (id : String) :
    (transfersOf c.world id).length ≤ 1 ∧ (statusOf c.world id = some .paid →
      (transfersOf c.world id).length = 1 ∨ ∀ o : Outcome, o.delivery = .done →
        Attains (system svc) o c fun w => (transfersOf w id).length = 1) := by
  obtain ⟨horderly, -⟩ := run_kept hopening hfresh hrun
  refine ⟨horderly.single id, fun hpaid => ?_⟩
  rcases horderly.paid id hpaid with hsome | ⟨j, row, hj, hid⟩
  · have hpos := List.length_pos_of_ne_nil hsome
    have hsingle := horderly.single id
    exact Or.inl (by omega)
  · refine Or.inr fun o hdone => ?_
    obtain ⟨s, hs, howing⟩ := Option.bind_eq_some_iff.mp hj
    obtain ⟨⟨s', rest⟩, ht, rfl⟩ := Option.map_eq_some_iff.mp hs
    have hends : (system svc).Ends (fun t _ => t.owing = none) c :=
      run_ends (fun caller => clears_program svc caller) (fun j t ht => by cases ht) hrun
    have hnone : transfersOf c.world id = [] := hid ▸ (horderly.owing j row hj).2
    refine attains_of_keeps (D := Owes id) (Q := fun t _ => t.owing = none)
      (fun w s i howes hallowed => owes_call howes hallowed hdone) ?_ ht (hends j _ ht)
        ⟨⟨row, howing, hid⟩, hnone⟩
    rintro w s a hs ⟨⟨row, howing, -⟩, -⟩
    rw [hs] at howing
    cases howing

/-- The payment has marked the settlement, and its event has not been emitted: two calls more. -/
theorem paid_settlements_paid_out_marked : ∃ c,
    run (system BalanceReports.sampleService).step (quiescent deskWorld)
    (payment 0 :: answered 0 2) = some c ∧
      statusOf c.world "settlement" = some .paid ∧
      Attains (system BalanceReports.sampleService) ⟨.done, none, BalanceReports.noRate, ""⟩ c
        fun w => (transfersOf w "settlement").length = 1 := by
  have hrun : (run (system BalanceReports.sampleService).step (quiescent deskWorld)
      (payment 0 :: answered 0 2)).map (fun c => (statusOf c.world "settlement",
        (transfersOf c.world "settlement").length)) = some (some .paid, 0) := by decide +kernel
  obtain ⟨c, hc, hpair⟩ := Option.map_eq_some_iff.mp hrun
  obtain ⟨hpaid, hlength⟩ := Prod.mk.inj hpair
  have hfresh : Along (system BalanceReports.sampleService).step Fresh (quiescent deskWorld)
      (payment 0 :: answered 0 2) := along_mono (fun _ _ h => fresh_of_test h) (by decide +kernel)
  have hout := (paid_settlements_paid_out deskWorld_opening hfresh hc "settlement").2 hpaid
  refine ⟨c, hc, hpaid, hout.resolve_left (by omega) _ rfl⟩

end Livora.SettlementPayouts
