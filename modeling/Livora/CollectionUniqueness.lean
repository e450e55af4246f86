import Livora.CollectionRaces
import Livora.Overtakings

/-! A household has one active request, and a request one centre, as long as nobody writes
what an insertion or a claim rests on between its read and its write. -/

namespace Livora.CollectionUniqueness

open TransitionRuns EffectPrograms ProgramPools ProgramPools.System Overtakings
open CollectionBooks CollectionBooks.World CollectionServices CollectionStages CollectionRaces
open RewardStrategies (NumberRecord)
open PinVerification (Delivery RequestStatus truthy)
open PinVerification.CollectionStateMachine (canVerifyPin)

variable {svc : Service} {c c' : Race} {e : RaceEvent} {j : ℕ} {o : Outcome}

/-! ### What a call has read -/

def Idle (w : World) (householdId : String) : Prop :=
  ∀ r ∈ w.requests, r.householdId = householdId → isActive r.status = false

def Shown (w : World) : Found → Prop
  | .nothing => True
  | .one id row => w.findRequest id = some row
  | .chosen rows => ∀ row ∈ rows, row ∈ w.requests ∧ isActive row.status = true
  | .noneOf householdId => Idle w householdId

theorem entry_shown {w : World} {f : Found} {entry : String × CollectionRequest}
    (hids : (w.requests.map Request.id).Nodup) (h : Shown w f) (hentry : entry ∈ f.entries) :
    w.findRequest entry.1 = some entry.2 := by
  cases f with
  | one id row =>
    obtain rfl := List.mem_singleton.mp hentry
    exact h
  | chosen rows =>
    obtain ⟨row, hrow, rfl⟩ := List.mem_map.mp hentry
    exact findRequest_of_mem hids (h row hrow).1
  | _ => cases hentry

theorem shown_chosen {w : World} {rows : List CollectionRequest} {p : CollectionRequest → Bool}
    (hrows : ∀ row ∈ rows, row ∈ w.requests.filter p)
    (hp : ∀ row, p row = true → isActive row.status = true) : Shown w (.chosen rows) := by
  intro row hrow
  obtain ⟨hmem, h⟩ := List.mem_filter.mp (hrows row hrow)
  exact ⟨hmem, hp row h⟩

theorem read_reply (w : World) (s : Stage) (i : Op) (o : Outcome) :
    (next s i (w.reply i o)).read = s.read ∧ (next .first i (w.reply i o)).read = .nothing ∨
      (next s i (w.reply i o)).read = (next .first i (w.reply i o)).read ∧
        Shown w (next .first i (w.reply i o)).read := by
  have active {s : RequestStatus} (row : CollectionRequest) (hs : isActive s = true)
      (h : (row.status == s) = true) : isActive row.status = true := by rwa [beq_iff_eq.mp h]
  by_cases haside : Aside i
  · exact .inl ⟨read_aside haside _, read_aside haside _⟩
  · cases hreply : w.reply i o with
    | error failure => cases i <;> exact .inl ⟨rfl, rfl⟩
    | ok answer =>
      cases i with
      | writeRequest id change => exact .inl ⟨rfl, rfl⟩
      | commitSelection id bid others => exact .inl ⟨rfl, rfl⟩
      | createRequest draft => exact .inl ⟨rfl, rfl⟩
      | findRequest id =>
        obtain ⟨-, hrow⟩ := Delivery.answer_ok hreply
        cases answer with
        | none => exact .inl ⟨rfl, rfl⟩
        | some row => exact .inr ⟨rfl, hrow⟩
      | rereadRequest id =>
        obtain ⟨-, hrow⟩ := Delivery.answer_ok hreply
        cases answer with
        | none => exact .inl ⟨rfl, rfl⟩
        | some row => exact .inr ⟨rfl, hrow⟩
      | findParties id =>
        obtain ⟨-, hparties⟩ := Delivery.answer_ok hreply
        cases answer with
        | none => exact .inl ⟨rfl, rfl⟩
        | some request =>
          obtain ⟨row, hrow, rfl⟩ := Option.map_eq_some_iff.mp hparties
          exact .inr ⟨rfl, hrow⟩
      | findActiveRequest householdId =>
        obtain ⟨-, hnone⟩ := Delivery.answer_ok hreply
        cases answer with
        | some row => exact .inl ⟨rfl, rfl⟩
        | none =>
          refine .inr ⟨rfl, fun r hr hhousehold => ?_⟩
          simpa [hhousehold] using List.find?_eq_none.mp hnone r hr
      | findExpiredPending before =>
        obtain ⟨-, rfl⟩ := Delivery.answer_ok hreply
        refine .inr ⟨rfl, shown_chosen (fun row hrow => List.mem_of_mem_take hrow) fun row h => ?_⟩
        exact active row rfl (Bool.and_eq_true_iff.mp h).1
      | findInactive before =>
        obtain ⟨-, rfl⟩ := Delivery.answer_ok hreply
        refine .inr ⟨rfl, shown_chosen (fun row hrow => List.mem_of_mem_take hrow) fun row h => ?_⟩
        exact active row rfl (Bool.and_eq_true_iff.mp (Bool.and_eq_true_iff.mp h).1).1
      | findExpiredAuctions now limit =>
        obtain ⟨-, rfl⟩ := Delivery.answer_ok hreply
        refine .inr ⟨rfl, shown_chosen (p := fun row => row.status == .auctionActive &&
          row.auctionExpiresAt.any fun t => decide (t ≤ now)) (fun row hrow => ?_) fun row h =>
            active row rfl (Bool.and_eq_true_iff.mp h).1⟩
        rw [List.map_map] at hrow
        obtain ⟨found, hfound, rfl⟩ := List.mem_map.mp hrow
        cases limit with
        | none => exact hfound
        | some limit => exact List.mem_of_mem_take hfound
      | findWaiting before =>
        obtain ⟨-, rfl⟩ := Delivery.answer_ok hreply
        refine .inr ⟨rfl, shown_chosen (p := fun row => row.status == .arrived &&
          row.arrivedAt.any fun t => decide (t < before)) (fun row hrow => ?_) fun row h =>
            active row rfl (Bool.and_eq_true_iff.mp h).1⟩
        rw [List.map_map] at hrow
        obtain ⟨found, hfound, rfl⟩ := List.mem_map.mp hrow
        exact List.mem_of_mem_take hfound
      | _ => exact absurd trivial haside

/-! ### One active request for a household -/

def activeOf (w : World) (householdId : String) : List CollectionRequest :=
  w.requests.filter fun row => row.householdId == householdId && isActive row.status

def activates : Change → Bool
  | .accept _ _ => true
  | .abandon _ => true
  | .startRoute _ _ => true
  | .reachDestination _ _ => true
  | .selectBid _ _ => true
  | .revertAuction => true
  | .acceptedInactivity => true
  | _ => false

/-- The households for which an applied call inserts a request or writes an active status. -/
def activated (w : World) (i : Op) (o : Outcome) : List String :=
  if o.delivery.applied then
    match change? i with
    | some (id, change) =>
      if activates change then ((w.findRequest id).map Request.householdId).toList else []
    | none =>
      match i with
      | .createRequest draft => [draft.householdId]
      | _ => []
  else []

def households : Found → List String
  | .noneOf householdId => [householdId]
  | found => found.entries.map fun entry => entry.2.householdId

/-- The insertions and the writes of an active status, by household. -/
def activations : Traffic World Op Outcome Outside String where
  reads w i o := households (next .first i (w.reply i o)).read
  writes := activated
  rests := activated
  outside _ _ := []

def Single (w : World) : Prop :=
  ∀ r ∈ w.requests, ∀ r' ∈ w.requests, isActive r.status = true → isActive r'.status = true →
    r.householdId = r'.householdId → r.id = r'.id

theorem apply_household {change : Change} {now : ℕ} {row row' : CollectionRequest}
    (h : change.apply now row = some row') : row'.householdId = row.householdId := by
  cases change with
  | accept collectorId escrow =>
    obtain ⟨escrowLocked, -, rfl⟩ := Option.map_eq_some_iff.mp h
    rfl
  | _ => cases h; rfl

theorem active_of_apply {change : Change} {now : ℕ} {row row' : CollectionRequest}
    (h : change.apply now row = some row') (hactive : isActive row'.status = true) :
    activates change = true ∨ isActive row.status = true := by
  cases change with
  | accept collectorId escrow => exact .inl rfl
  | claimAutomatic centerId rates => cases h; exact .inr hactive
  | abandon _ | startRoute _ _ | reachDestination _ _ | selectBid _ _ | revertAuction
  | acceptedInactivity => exact .inl rfl
  | _ => cases h; cases hactive

theorem active_of_guard {change : Change} {row : CollectionRequest} (h : Guard svc change row)
    (hactivates : activates change = true) : isActive row.status = true := by
  cases change with
  | accept collectorId escrow => rcases h.1 with h | h <;> rw [h] <;> rfl
  | abandon userId => rw [h.2]; rfl
  | startRoute userId enRouteAt => rw [h.2]; rfl
  | reachDestination userId arrivedAt => rw [h.2]; rfl
  | selectBid centerId rates => rcases h with h | h <;> rw [h] <;> rfl
  | revertAuction => rw [show row.status = _ from h]; rfl
  | acceptedInactivity => rw [show row.status = _ from h]; rfl
  | _ => cases hactivates

structure Raises (c : Race) (e : RaceEvent) (ids : List String) : Prop where
  written : ∀ t ∈ written c e, activates t.change = true → t.row.householdId ∈ ids
  creates : ∀ draft ∈ creates c e, draft.householdId ∈ ids

theorem raises_call {i : Op} (hi : pending c j = some i) :
    Raises c (.advance j o) (activated c.world i o) where
  written t ht hactivates := by
    obtain ⟨hwrites, hrow⟩ := mem_written ht
    have happlied : o.delivery.applied = true := by
      by_contra hnot
      simp [writes, hnot] at hwrites
    obtain ⟨i', hi', hchange⟩ := writes_advance hwrites
    cases hi.symm.trans hi'
    unfold activated
    rw [if_pos happlied, hchange]
    simp [hactivates, hrow]
  creates draft hdraft := by
    have happlied : o.delivery.applied = true := by
      by_contra hnot
      simp [CollectionRaces.creates, hnot] at hdraft
    cases hi.symm.trans (creates_advance hdraft)
    rw [activated, if_pos happlied]
    exact List.mem_singleton_self _

theorem raises_outside {d : Outside} : Raises c (.outside d) [] where
  written t ht := by cases (mem_written ht).1
  creates draft hdraft := by cases hdraft

theorem active_before {w : World} {ids : List String} {r : CollectionRequest}
    (hraises : Raises c e ids) (h : Effect c e w) (hr : r ∈ w.requests)
    (hactive : isActive r.status = true) (hnot : r.householdId ∉ ids) :
    ∃ old ∈ c.world.requests, old.id = r.id ∧ old.householdId = r.householdId ∧
      isActive old.status = true := by
  cases h with
  | same h => exact ⟨r, h ▸ hr, rfl, rfl, hactive⟩
  | change id change row row' hwrites hfound happly h =>
    rw [h] at hr
    rcases mem_setRequest hr with rfl | hr
    · refine ⟨row, mem_of_findRequest hfound, (Change.apply_id happly).symm,
        (apply_household happly).symm, ?_⟩
      refine (active_of_apply happly hactive).resolve_left fun hactivates => hnot ?_
      rw [apply_household happly]
      exact hraises.written _ (written_eq hwrites hfound) hactivates
    · exact ⟨r, hr, rfl, rfl, hactive⟩
  | edit id row items description hfound hpending h =>
    rw [h] at hr
    rcases mem_setRequest hr with rfl | hr
    · exact ⟨row, mem_of_findRequest hfound, rfl, rfl, hactive⟩
    · exact ⟨r, hr, rfl, rfl, hactive⟩
  | create id draft hcreates hfresh h =>
    rw [h] at hr
    rcases List.mem_append.mp hr with hr | hr
    · exact ⟨r, hr, rfl, rfl, hactive⟩
    · obtain rfl := List.mem_singleton.mp hr
      exact absurd (hraises.creates draft hcreates) hnot
  | complete id row batchId weights hcompletes hfound hverify h =>
    rw [h] at hr
    rcases mem_setRequest hr with rfl | hr
    · cases hactive
    · exact ⟨r, hr, rfl, rfl, hactive⟩

theorem household_kept {id : String} {row : CollectionRequest} {w : World} (h : RowEffect c e id w)
    (hrow : c.world.findRequest id = some row) :
    ∃ row', w.findRequest id = some row' ∧ row'.householdId = row.householdId := by
  cases h with
  | same h => exact ⟨row, h.trans hrow, rfl⟩
  | change change old new hwrites hfound happly h =>
    cases hrow.symm.trans hfound
    exact ⟨new, h, apply_household happly⟩
  | edit old items description hfound hpending h =>
    cases hrow.symm.trans hfound
    exact ⟨_, h, rfl⟩
  | create draft hcreates hfresh h => rw [hfresh] at hrow; cases hrow
  | complete old batchId weights hcompletes hfound hverify h =>
    cases hrow.symm.trans hfound
    exact ⟨_, h, rfl⟩

/-- What a call knows by what it has read, of the households that are not late. -/
structure Knows (w : World) (f : Found) (late : List String) : Prop where
  same : ∀ entry ∈ f.entries, ∃ row, w.findRequest entry.1 = some row ∧
    row.householdId = entry.2.householdId
  only : ∀ entry ∈ f.entries, isActive entry.2.status = true → entry.2.householdId ∉ late →
    ∀ r ∈ w.requests, isActive r.status = true → r.householdId = entry.2.householdId →
      r.id = entry.1
  chosen : f.isChosen = true → ∀ entry ∈ f.entries, isActive entry.2.status = true
  idle : ∀ householdId, f = .noneOf householdId → householdId ∉ late → Idle w householdId

theorem Knows.mono {w : World} {f : Found} {late late' : List String} (h : Knows w f late)
    (hsub : late ⊆ late') : Knows w f late' where
  same := h.same
  only entry hentry hactive hnot := h.only entry hentry hactive fun hmem => hnot (hsub hmem)
  chosen := h.chosen
  idle id hid hnot := h.idle id hid fun hmem => hnot (hsub hmem)

theorem knows_shown {w : World} {f : Found} (hids : (w.requests.map Request.id).Nodup)
    (hsingle : Single w) (h : Shown w f) : Knows w f [] where
  same entry hentry := ⟨entry.2, entry_shown hids h hentry, rfl⟩
  only entry hentry hactive _ r hr hactive' hsame := by
    have hfind := entry_shown hids h hentry
    rw [hsingle r hr entry.2 (mem_of_findRequest hfind) hactive' hactive hsame,
      id_of_findRequest hfind]
  chosen hchosen entry hentry := by
    cases f with
    | chosen rows =>
      obtain ⟨row, hrow, rfl⟩ := List.mem_map.mp hentry
      exact (h row hrow).2
    | _ => cases hchosen
  idle id hid _ := by
    subst hid
    exact h

theorem Knows.effect {w : World} {f : Found} {late ids : List String}
    (hknows : Knows c.world f late)
    (hraises : Raises c e ids) (h : Effect c e w) : Knows w f (ids ++ late) where
  same entry hentry := by
    obtain ⟨row, hrow, hhousehold⟩ := hknows.same entry hentry
    obtain ⟨row', hrow', hkept⟩ := household_kept (h.row entry.1) hrow
    exact ⟨row', hrow', hkept.trans hhousehold⟩
  only entry hentry hactive hnot r hr hactive' hsame := by
    rw [List.mem_append, not_or] at hnot
    obtain ⟨old, hold, hid, hhousehold, hbefore⟩ :=
      active_before hraises h hr hactive' (hsame ▸ hnot.1)
    rw [← hid]
    exact hknows.only entry hentry hactive hnot.2 old hold hbefore (hhousehold.trans hsame)
  chosen := hknows.chosen
  idle id hid hnot r hr hhousehold := by
    rw [List.mem_append, not_or] at hnot
    by_contra hactive
    rw [Bool.not_eq_false] at hactive
    obtain ⟨old, hold, -, hsame, hbefore⟩ :=
      active_before hraises h hr hactive (hhousehold ▸ hnot.1)
    rw [hknows.idle id hid hnot.2 old hold (hsame.trans hhousehold)] at hbefore
    cases hbefore

/-- A request is inserted while its household has none that is active, and one that is over is
brought back only then. -/
structure Alone (c : Race) (e : RaceEvent) : Prop where
  creates : ∀ draft ∈ creates c e, Idle c.world draft.householdId
  written : ∀ t ∈ written c e, activates t.change = true →
    isActive t.row.status = true ∨ Idle c.world t.row.householdId

theorem alone_call {s : Stage} {i : Op} {late : List String}
    (hids : (c.world.requests.map Request.id).Nodup) (hknows : Knows c.world s.read late)
    (hi : pending c j = some i) (hallowed : Allowed svc s i)
    (hfresh : ∀ m ∈ activated c.world i o, m ∉ late) : Alone c (.advance j o) where
  creates draft hdraft := by
    have hnot := hfresh _ ((raises_call hi).creates draft hdraft)
    cases hi.symm.trans (creates_advance hdraft)
    exact hknows.idle _ hallowed.2 hnot
  written t ht hactivates := by
    have hnot := hfresh _ ((raises_call hi).written t ht hactivates)
    obtain ⟨id, change, row⟩ := t
    obtain ⟨hwrites, hfind⟩ := mem_written ht
    obtain ⟨i', hi', hchange⟩ := writes_advance hwrites
    cases hi.symm.trans hi'
    have hfound : ∃ row, (id, row) ∈ s.found ∧ isActive row.status = true := by
      unfold CollectionRaces.change? at hchange
      split at hchange
      · cases hchange
        obtain ⟨-, row, hmem, ⟨-, hchosen⟩ | hguard⟩ := hallowed
        · exact ⟨row, hmem, hknows.chosen hchosen _ hmem⟩
        · exact ⟨row, hmem, active_of_guard hguard hactivates⟩
      · cases hchange
        rename_i bid others
        obtain ⟨⟨row, hmem, hbiddable⟩, -⟩ := hallowed
        have hguard : Guard svc (.selectBid bid.centerId bid.proposedRates) row := hbiddable
        exact ⟨row, hmem, active_of_guard hguard hactivates⟩
      · cases hchange
    obtain ⟨found, hmem, hactive⟩ := hfound
    obtain ⟨row', hrow', hhousehold⟩ := hknows.same _ hmem
    cases hfind.symm.trans hrow'
    by_cases hnow : isActive row.status = true
    · exact .inl hnow
    · refine .inr fun r hr hsame => ?_
      by_contra hother
      rw [Bool.not_eq_false] at hother
      have hid : r.id = row.id :=
        (hknows.only _ hmem hactive (hhousehold ▸ hnot) r hr hother (hsame.trans hhousehold)).trans
          (id_of_findRequest hfind).symm
      rw [List.inj_on_of_nodup_map hids hr (mem_of_findRequest hfind) hid] at hother
      exact hnow hother

theorem single_setRequest {w w' : World} {row row' : CollectionRequest} (h : Single w)
    (hrow : row ∈ w.requests) (hid : row'.id = row.id)
    (hhousehold : row'.householdId = row.householdId)
    (hkeeps : isActive row'.status = true → isActive row.status = true ∨ Idle w row.householdId)
    (hw : w'.requests = (w.setRequest row').requests) : Single w' := by
  have hother : ∀ r ∈ w.requests, isActive r.status = true → isActive row'.status = true →
      r.householdId = row'.householdId → r.id = row'.id := by
    intro r hr hr' hrow' hsame
    rw [hhousehold] at hsame
    rcases hkeeps hrow' with hbefore | hidle
    · rw [hid]
      exact h r hr row hrow hr' hbefore hsame
    · rw [hidle r hr hsame] at hr'
      cases hr'
  intro r hr r' hr' hactive hactive' hsame
  rw [hw] at hr hr'
  rcases mem_setRequest hr with heq | hmem <;> rcases mem_setRequest hr' with heq' | hmem'
  · rw [heq, heq']
  · rw [heq] at hactive hsame ⊢
    exact (hother r' hmem' hactive' hactive hsame.symm).symm
  · rw [heq'] at hactive' hsame ⊢
    exact hother r hmem hactive hactive' hsame
  · exact h r hmem r' hmem' hactive hactive' hsame

theorem Alone.single {w : World} (hC : Alone c e) (h : Effect c e w)
    (hsingle : Single c.world) : Single w := by
  cases h with
  | same h => unfold Single at hsingle ⊢; rwa [h]
  | change id ch row row' hwrites hfound happly h =>
    refine single_setRequest hsingle (mem_of_findRequest hfound) (Change.apply_id happly)
      (apply_household happly) (fun hactive => ?_) h
    rcases active_of_apply happly hactive with hactivates | hbefore
    · exact hC.written _ (written_eq hwrites hfound) hactivates
    · exact .inl hbefore
  | edit id row items description hfound hpending h =>
    refine single_setRequest hsingle (mem_of_findRequest hfound) ?_ ?_ ?_ h
    · rfl
    · rfl
    · exact .inl
  | create id draft hcreates hfresh h =>
    have hidle := hC.creates draft hcreates
    intro r hr r' hr' hactive hactive' hsame
    rw [h] at hr hr'
    rcases List.mem_append.mp hr with hr | hr <;> rcases List.mem_append.mp hr' with hr' | hr'
    · exact hsingle r hr r' hr' hactive hactive' hsame
    · obtain rfl := List.mem_singleton.mp hr'
      rw [hidle r hr hsame] at hactive
      cases hactive
    · obtain rfl := List.mem_singleton.mp hr
      rw [hidle r' hr' hsame.symm] at hactive'
      cases hactive'
    · rw [List.mem_singleton.mp hr, List.mem_singleton.mp hr']
  | complete id row batchId weights hcompletes hfound hverify h =>
    refine single_setRequest hsingle (mem_of_findRequest hfound) ?_ ?_ (fun hactive => ?_) h
    · rfl
    · rfl
    · cases hactive

theorem activeOf_length {w : World} (hids : (w.requests.map Request.id).Nodup) (h : Single w)
    (householdId : String) : (activeOf w householdId).length ≤ 1 := by
  have hids : ((activeOf w householdId).map Request.id).Nodup :=
    hids.sublist (List.filter_sublist.map Request.id)
  have hone : ∀ r ∈ activeOf w householdId, ∀ r' ∈ activeOf w householdId, r.id = r'.id := by
    intro r hr r' hr'
    obtain ⟨hmem, hr⟩ := List.mem_filter.mp hr
    obtain ⟨hmem', hr'⟩ := List.mem_filter.mp hr'
    simp only [Bool.and_eq_true, beq_iff_eq] at hr hr'
    exact h r hmem r' hmem' hr.2 hr'.2 (hr.1.trans hr'.1.symm)
  generalize activeOf w householdId = active at hids hone
  match active with
  | [] => exact Nat.zero_le 1
  | [r] => exact le_rfl
  | r :: r' :: rest =>
    rw [List.map_cons, List.nodup_cons] at hids
    have hsame := hone r (by simp) r' (by simp)
    exact absurd (by rw [hsame]; simp) hids.1

theorem knows_nothing (w : World) : Knows w .nothing [] where
  same entry hentry := by cases hentry
  only entry hentry := by cases hentry
  chosen h := by cases h
  idle id h := by cases h

theorem own_activations {w : World} {i : Op} {late : List String}
    (hnothing : (next .first i (w.reply i o)).read = .nothing) :
    activations.own w i o late = activated w i o ++ late := by
  have hreads : activations.reads w i o = [] := by
    change households (next .first i (w.reply i o)).read = []
    rw [hnothing]
    rfl
  rw [Traffic.own, hreads]
  simp [activations]

theorem steady_activations (svc : Service) : activations.Steady (system svc) (fun _ _ => True)
    (fun w => (w.requests.map Request.id).Nodup ∧ Single w)
    fun w s late => Knows w s.read late where
  first w := knows_nothing w
  call c j o s i late hworld hknows hi hallowed _ hfresh := by
    obtain ⟨hids, hsingle⟩ := hworld
    have heffect : Effect c (.advance j o) (c.world.after i o) := effect_advance hi
    have hraises : Raises c (.advance j o) (activated c.world i o) := raises_call hi
    have halone : Alone c (.advance j o) := alone_call hids hknows hi hallowed hfresh
    refine ⟨⟨heffect.ids hids, halone.single heffect hsingle⟩, ?_,
      fun t late ht => ht.effect hraises heffect⟩
    change Knows (c.world.after i o) (next s i (c.world.reply i o)).read
      (activations.own c.world i o late)
    rcases read_reply c.world s i o with ⟨hread, hnothing⟩ | ⟨hread, hshown⟩
    · rw [hread, own_activations hnothing]
      exact hknows.effect hraises heffect
    · rw [hread]
      refine ((knows_shown hids hsingle hshown).effect hraises heffect).mono ?_
      rw [List.append_nil]
      exact List.subset_append_left _ _
  outside c d w hworld _ hw := by
    have heffect := effect_outside hw
    have halone : Alone c (.outside d) := ⟨nofun, fun t ht => by cases (mem_written ht).1⟩
    exact ⟨⟨heffect.ids hworld.1, halone.single heffect hworld.2⟩,
      fun t late ht => ht.effect raises_outside heffect⟩

/-- In a run in which no other request of a household is inserted or made active between what a call
reads of that household and the write that rests on it, no household ever has two active
requests. -/
theorem household_single {w : World} {es : List RaceEvent}
    (hids : (w.requests.map Request.id).Nodup) (hw : Single w)
    (hfresh : activations.Undisturbed (system svc) (quiescent w) es)
    (hrun : run (system svc).step (quiescent w) es = some c) (householdId : String) :
    (activeOf c.world householdId).length ≤ 1 := by
  have hstart : Traffic.Known (system svc) (fun w => (w.requests.map Request.id).Nodup ∧ Single w)
      (fun w s late => Knows w s.read late) (quiescent w, fun _ => []) :=
    ⟨disciplined svc w, ⟨hids, hw⟩, fun j s hs => by cases hs⟩
  obtain ⟨hids, hsingle⟩ :=
    (steady_activations svc).run (follows_program svc) hstart along_true hfresh hrun
  exact activeOf_length hids hsingle householdId

def sampleDto : CollectionLifecycleService.CreateCollectionDto where
  itemsEstimated := sampleRow.itemsEstimated
  assignmentMode := .automatic
  description := none
  isDonation := false
  file := false

def creation (j : ℕ) : RaceEvent := .start j (.create "household" sampleDto)

/-- A request is created; a second one is refused, and allowed once the first is cancelled. -/
def createdInTurn : List RaceEvent :=
  creation 0 :: answeredUnder "first" 0 6 ++ creation 1 :: answeredUnder "second" 1 1 ++
    .start 2 (.updateStatus "first" "household" .hogar .cancelled) :: answered 2 3 ++
      creation 3 :: answeredUnder "second" 3 6

def createdAtOnce : List RaceEvent :=
  creation 0 :: creation 1 :: answeredUnder "first" 0 3 ++ answeredUnder "second" 1 3 ++
    answeredUnder "first" 0 1 ++ answeredUnder "second" 1 1

theorem household_single_inTurn : ∃ c : Race, c.world.requests.length = 2 ∧
    ∀ householdId, (activeOf c.world householdId).length ≤ 1 := by
  have hrun : (run (system sampleService).step (quiescent (sampleWorld [] [])) createdInTurn).any
      (fun c => c.world.requests.length == 2) = true := by decide +kernel
  obtain ⟨c, hc, hlength⟩ := (Option.any_eq_true _ _).mp hrun
  have hsingle : Single (sampleWorld [] []) := fun r hr => by cases hr
  exact ⟨c, by simpa using hlength,
    household_single (by decide) hsingle (by decide +kernel) hc⟩

theorem household_two_active : ∃ c, run (system sampleService).step
    (quiescent (sampleWorld [] [])) createdAtOnce = some c ∧
      (activeOf c.world "household").length = 2 := by
  have hrun : (run (system sampleService).step (quiescent (sampleWorld [] [])) createdAtOnce).any
      (fun c => (activeOf c.world "household").length == 2) = true := by decide +kernel
  obtain ⟨c, hc, hlength⟩ := (Option.any_eq_true _ _).mp hrun
  exact ⟨c, hc, by simpa using hlength⟩

/-! ### One centre for a request -/

def awards : Change → Option (String × NumberRecord)
  | .claimAutomatic centerId agreedRates => some (centerId, agreedRates)
  | .selectBid centerId agreedRates => some (centerId, agreedRates)
  | _ => none

def awarded (i : Op) (o : Outcome) : List String :=
  if o.delivery.applied then
    match change? i with
    | some (id, change) => if (awards change).isSome then [id] else []
    | none => []
  else []

def claimed (i : Op) (o : Outcome) : List String :=
  if o.delivery.applied then
    match change? i with
    | some (id, .claimAutomatic _ _) => [id]
    | _ => []
  else []

/-- The claims and the selections, by request; a claim rests on what was read of the request. -/
def claims : Traffic World Op Outcome Outside String where
  reads w i o := (next .first i (w.reply i o)).found.map Prod.fst
  writes _ := awarded
  rests _ := claimed
  outside _ _ := []

/-- A centre has an id, and a bid is selected of a request that is in auction. -/
def Fitting : Change → CollectionRequest → Prop
  | .claimAutomatic centerId _, _ => centerId ≠ ""
  | .selectBid centerId _, row => centerId ≠ "" ∧ row.assignmentMode = .auction
  | _, _ => True

instance : (change : Change) → (row : CollectionRequest) → Decidable (Fitting change row)
  | .claimAutomatic _ _, _ => inferInstanceAs (Decidable (_ ≠ _))
  | .selectBid _ _, _ => inferInstanceAs (Decidable (_ ∧ _))
  | .accept _ _, _ | .cancelByCollector _, _ | .cancelByHousehold _, _ | .abandon _, _
  | .reportNoShow _, _ | .rejectOnSite _ _, _ | .startRoute _ _, _ | .reachDestination _ _, _
  | .revertAuction, _ | .pendingTimeout, _ | .acceptedInactivity, _ | .arrivedNoShow, _ =>
    .isTrue trivial

def Fit (c : Race) (e : RaceEvent) : Prop := ∀ t ∈ written c e, Fitting t.change t.row

instance (c : Race) (e : RaceEvent) : Decidable (Fit c e) :=
  inferInstanceAs (Decidable (∀ t ∈ written c e, _))

theorem apply_award {change : Change} {now : ℕ} {row row' : CollectionRequest}
    {award : String × NumberRecord} (h : change.apply now row = some row')
    (haward : awards change = some award) :
    row'.assignedCenterId = some award.1 ∧ row'.agreedRates = some award.2 := by
  cases change with
  | claimAutomatic centerId rates => cases h; cases haward; exact ⟨rfl, rfl⟩
  | selectBid centerId rates => cases h; cases haward; exact ⟨rfl, rfl⟩
  | _ => cases haward

theorem apply_unawarded {change : Change} {now : ℕ} {row row' : CollectionRequest}
    (h : change.apply now row = some row') (haward : awards change = none) :
    row'.assignedCenterId = row.assignedCenterId ∧ row'.agreedRates = row.agreedRates := by
  cases change with
  | accept collectorId escrow =>
    obtain ⟨escrowLocked, -, rfl⟩ := Option.map_eq_some_iff.mp h
    exact ⟨rfl, rfl⟩
  | claimAutomatic centerId rates => cases haward
  | selectBid centerId rates => cases haward
  | _ => cases h; exact ⟨rfl, rfl⟩

theorem apply_mode {change : Change} {now : ℕ} {row row' : CollectionRequest}
    (h : change.apply now row = some row') (hmode : row.assignmentMode = .automatic) :
    row'.assignmentMode = .automatic := by
  cases change with
  | accept collectorId escrow =>
    obtain ⟨escrowLocked, -, rfl⟩ := Option.map_eq_some_iff.mp h
    exact hmode
  | revertAuction => cases h; rfl
  | _ => cases h; exact hmode

theorem truthy_of_award {change : Change} {row : CollectionRequest} {award : String × NumberRecord}
    (hfit : Fitting change row) (haward : awards change = some award) :
    (truthy (some award.1)).isSome = true := by
  have hid : award.1 ≠ "" := by
    cases change with
    | claimAutomatic centerId rates => cases haward; exact hfit
    | selectBid centerId rates => cases haward; exact hfit.1
    | _ => cases haward
  simp [truthy, hid]

/-- What has become of a request since it was as `found`, where its centre is not late. -/
structure Later (late : List String) (id : String) (found row : CollectionRequest) : Prop where
  center : (truthy found.assignedCenterId).isSome = true →
    (truthy row.assignedCenterId).isSome = true
  mode : found.assignmentMode = .automatic → row.assignmentMode = .automatic
  same : id ∉ late → row.assignedCenterId = found.assignedCenterId

theorem Later.of_center {late : List String} {id : String} {found row : CollectionRequest}
    (hcenter : row.assignedCenterId = found.assignedCenterId)
    (hmode : found.assignmentMode = .automatic → row.assignmentMode = .automatic) :
    Later late id found row :=
  ⟨fun h => hcenter ▸ h, hmode, fun _ => hcenter⟩

theorem Later.trans {late ids : List String} {id : String} {found row row' : CollectionRequest}
    (h : Later late id found row) (h' : Later ids id row row') :
    Later (ids ++ late) id found row' where
  center hfound := h'.center (h.center hfound)
  mode hfound := h'.mode (h.mode hfound)
  same hnot := by
    rw [List.mem_append, not_or] at hnot
    exact (h'.same hnot.1).trans (h.same hnot.2)

def Awards (c : Race) (e : RaceEvent) (ids : List String) : Prop :=
  ∀ t ∈ written c e, (awards t.change).isSome = true → t.id ∈ ids

theorem awards_call {i : Op} (hi : pending c j = some i) :
    Awards c (.advance j o) (awarded i o) := by
  intro t ht haward
  obtain ⟨hwrites, -⟩ := mem_written ht
  have happlied : o.delivery.applied = true := by
    by_contra hnot
    simp [writes, hnot] at hwrites
  obtain ⟨i', hi', hchange⟩ := writes_advance hwrites
  cases hi.symm.trans hi'
  simp [awarded, happlied, hchange, haward]

theorem awards_outside {d : Outside} : Awards c (.outside d) [] :=
  fun t ht => by cases (mem_written ht).1

theorem later_row {id : String} {row : CollectionRequest} {w : World} {ids : List String}
    (hC : Fit c e)
    (hawards : Awards c e ids) (h : RowEffect c e id w) (hrow : c.world.findRequest id = some row) :
    ∃ row', w.findRequest id = some row' ∧ Later ids id row row' := by
  cases h with
  | same h => exact ⟨row, h.trans hrow, .of_center rfl fun h => h⟩
  | change change old new hwrites hfound happly h =>
    cases hrow.symm.trans hfound
    have ht := written_eq hwrites hfound
    refine ⟨new, h, ?_⟩
    cases haward : awards change with
    | none => exact .of_center (apply_unawarded happly haward).1 (apply_mode happly)
    | some award =>
      refine ⟨fun _ => ?_, apply_mode happly, fun hnot => absurd (hawards _ ht ?_) hnot⟩
      · rw [(apply_award happly haward).1]
        exact truthy_of_award (hC _ ht) haward
      · rw [haward]
        rfl
  | edit old items description hfound hpending h =>
    cases hrow.symm.trans hfound
    exact ⟨_, h, .of_center rfl fun h => h⟩
  | create draft hcreates hfresh h => rw [hfresh] at hrow; cases hrow
  | complete old batchId weights hcompletes hfound hverify h =>
    cases hrow.symm.trans hfound
    exact ⟨_, h, .of_center rfl fun h => h⟩

def Recalls (w : World) (f : Found) (late : List String) : Prop :=
  ∀ entry ∈ f.entries, ∃ row, w.findRequest entry.1 = some row ∧ Later late entry.1 entry.2 row

theorem Recalls.mono {w : World} {f : Found} {late late' : List String} (h : Recalls w f late)
    (hsub : late ⊆ late') : Recalls w f late' := by
  intro entry hentry
  obtain ⟨row, hrow, hlater⟩ := h entry hentry
  exact ⟨row, hrow, hlater.center, hlater.mode, fun hnot => hlater.same fun hmem =>
    hnot (hsub hmem)⟩

theorem Recalls.effect {w : World} {f : Found} {late ids : List String} (h : Recalls c.world f late)
    (hC : Fit c e) (hawards : Awards c e ids) (heffect : Effect c e w) :
    Recalls w f (ids ++ late) := by
  intro entry hentry
  obtain ⟨row, hrow, hlater⟩ := h entry hentry
  obtain ⟨row', hrow', hlater'⟩ := later_row hC hawards (heffect.row entry.1) hrow
  exact ⟨row', hrow', hlater.trans hlater'⟩

/-- A request that a collector has was accepted at the rates of a centre. -/
def Centred (row : CollectionRequest) : Prop :=
  row.collectorId ≠ none → (truthy row.assignedCenterId).isSome = true

theorem centred_change {change : Change} {now : ℕ} {row row' : CollectionRequest}
    (hfit : Fitting change row)
    (haccept : ∀ k escrow, change = .accept k escrow → (truthy row.assignedCenterId).isSome = true)
    (happly : change.apply now row = some row') (h : Centred row) : Centred row' := by
  intro hcollector
  cases haward : awards change with
  | some award =>
    rw [(apply_award happly haward).1]
    exact truthy_of_award hfit haward
  | none =>
    rw [(apply_unawarded happly haward).1]
    cases change with
    | accept collectorId escrow => exact haccept _ _ rfl
    | abandon userId => cases happly; exact absurd rfl hcollector
    | acceptedInactivity => cases happly; exact absurd rfl hcollector
    | _ => cases happly; exact h hcollector

theorem centred_effect {w : World} (hC : Fit c e) (h : Effect c e w)
    (haccept : ∀ t ∈ written c e, ∀ k escrow, t.change = .accept k escrow →
      (truthy t.row.assignedCenterId).isSome = true)
    (hrows : ∀ r ∈ c.world.requests, Centred r) : ∀ r ∈ w.requests, Centred r :=
  h.rows hrows (fun t ht _ happly hrow => centred_change (hC t ht) (haccept t ht) happly hrow)
    (fun _ _ _ _ _ hrow => hrow) (fun _ _ _ _ hcollector => absurd rfl hcollector)
    fun _ _ _ _ _ _ _ _ hrow => hrow

theorem centre_of_allowed {s : Stage} {i : Op} {late : List String}
    (hrecalls : Recalls c.world s.read late)
    (hi : pending c j = some i) (hallowed : Allowed svc s i) :
    ∀ t ∈ written c (.advance j o), ∀ k escrow, t.change = .accept k escrow →
      (truthy t.row.assignedCenterId).isSome = true := by
  rintro ⟨id, change, row⟩ ht k escrow rfl
  obtain ⟨hwrites, hrow⟩ := mem_written ht
  obtain ⟨i', hi', hchange⟩ := writes_advance hwrites
  cases hi.symm.trans hi'
  unfold CollectionRaces.change? at hchange
  split at hchange
  · cases hchange
    obtain ⟨-, found, hfound, hguard⟩ := hallowed
    obtain ⟨-, htruthy, -⟩ := hguard.resolve_left (by simp [queried])
    obtain ⟨row', hrow', hlater⟩ := hrecalls _ hfound
    cases hrow.symm.trans hrow'
    exact hlater.center htruthy
  · cases hchange
  · cases hchange

/-- A claim is written to a request like any other that no centre has. -/
def Spared : Change → CollectionRequest → Prop
  | .claimAutomatic centerId _, row =>
    centerId ≠ "" ∧ row.assignmentMode = .automatic ∧ truthy row.assignedCenterId = none
  | .selectBid centerId _, row => centerId ≠ "" ∧ row.assignmentMode = .auction
  | _, _ => True

theorem spared_call {s : Stage} {i : Op} {late : List String} (hC : Fit c (.advance j o))
    (hrecalls : Recalls c.world s.read late) (hi : pending c j = some i)
    (hallowed : Allowed svc s i) (hfresh : ∀ m ∈ claimed i o, m ∉ late) :
    ∀ t ∈ written c (.advance j o), Spared t.change t.row := by
  rintro ⟨id, change, row⟩ ht
  have hfit := hC _ ht
  obtain ⟨hwrites, hrow⟩ := mem_written ht
  cases change with
  | claimAutomatic centerId rates =>
    have happlied : o.delivery.applied = true := by
      by_contra hnot
      simp [writes, hnot] at hwrites
    obtain ⟨i', hi', hchange⟩ := writes_advance hwrites
    cases hi.symm.trans hi'
    have hnot : id ∉ late := hfresh id (by simp [claimed, happlied, hchange])
    unfold CollectionRaces.change? at hchange
    split at hchange
    · cases hchange
      obtain ⟨-, found, hfound, hguard⟩ := hallowed
      obtain ⟨-, hautomatic, hnone⟩ := hguard.resolve_left (by simp [queried])
      obtain ⟨row', hrow', hlater⟩ := hrecalls _ hfound
      cases hrow.symm.trans hrow'
      exact ⟨hfit, hlater.mode hautomatic, (hlater.same hnot).symm ▸ hnone⟩
    · cases hchange
    · cases hchange
  | selectBid centerId rates => exact hfit
  | _ => trivial

theorem own_claims {w : World} {i : Op} {late : List String}
    (hnothing : (next .first i (w.reply i o)).read = .nothing) :
    claims.own w i o late = awarded i o ++ late := by
  have hreads : claims.reads w i o = [] := by
    change (next .first i (w.reply i o)).read.entries.map Prod.fst = []
    rw [hnothing]
    rfl
  rw [Traffic.own, hreads]
  simp [claims]

theorem recalls_shown {w : World} {f : Found} (hids : (w.requests.map Request.id).Nodup)
    (h : Shown w f) : Recalls w f [] :=
  fun entry hentry => ⟨entry.2, entry_shown hids h hentry, .of_center rfl fun h => h⟩

theorem steady_claims (svc : Service) : claims.Steady (system svc) Fit
    (fun w => (w.requests.map Request.id).Nodup ∧ ∀ r ∈ w.requests, Centred r)
    fun w s late => Recalls w s.read late where
  first w := fun entry hentry => by cases hentry
  call c j o s i late hworld hrecalls hi hallowed hC _ := by
    obtain ⟨hids, hrows⟩ := hworld
    have heffect : Effect c (.advance j o) (c.world.after i o) := effect_advance hi
    have hawards : Awards c (.advance j o) (awarded i o) := awards_call hi
    have hcentred := centred_effect hC heffect (centre_of_allowed hrecalls hi hallowed) hrows
    refine ⟨⟨heffect.ids hids, hcentred⟩, ?_, fun t late ht => ht.effect hC hawards heffect⟩
    change Recalls (c.world.after i o) (next s i (c.world.reply i o)).read
      (claims.own c.world i o late)
    rcases read_reply c.world s i o with ⟨hread, hnothing⟩ | ⟨hread, hshown⟩
    · rw [hread, own_claims hnothing]
      exact hrecalls.effect hC hawards heffect
    · rw [hread]
      refine ((recalls_shown hids hshown).effect hC hawards heffect).mono ?_
      rw [List.append_nil]
      exact List.subset_append_left _ _
  outside c d w hworld hC hw := by
    have heffect := effect_outside hw
    refine ⟨⟨heffect.ids hworld.1, centred_effect hC heffect (fun t ht => ?_) hworld.2⟩,
      fun t late ht => ht.effect hC awards_outside heffect⟩
    cases (mem_written ht).1

def Priced (w : World) (id centerId : String) (agreedRates : NumberRecord) : Prop :=
  ∃ row, w.findRequest id = some row ∧ row.assignedCenterId = some centerId ∧
    row.agreedRates = some agreedRates

structure Taken (row : CollectionRequest) (centerId : String) (agreedRates : NumberRecord) :
    Prop where
  mode : row.assignmentMode = .automatic
  center : row.assignedCenterId = some centerId
  rates : row.agreedRates = some agreedRates

theorem step_taken {id k : String} {rates : NumberRecord} (hk : k ≠ "")
    (hspared : ∀ t ∈ written c e, Spared t.change t.row) (h : (system svc).step c e = some c')
    (htaken : ∃ row, c.world.findRequest id = some row ∧ Taken row k rates) :
    ∃ row, c'.world.findRequest id = some row ∧ Taken row k rates := by
  obtain ⟨row, hrow, htaken⟩ := htaken
  cases step_row h id with
  | same h => exact ⟨row, h.trans hrow, htaken⟩
  | change change old new hwrites hfound happly h =>
    cases hrow.symm.trans hfound
    have hspared := hspared _ (written_eq hwrites hfound)
    have hmode := apply_mode happly htaken.mode
    refine ⟨new, h, ?_⟩
    cases change with
    | claimAutomatic centerId rates' =>
      have hnone := hspared.2.2
      simp [htaken.center, truthy, hk] at hnone
    | selectBid centerId rates' =>
      have hauction := hspared.2
      rw [htaken.mode] at hauction
      cases hauction
    | _ =>
      obtain ⟨hcenter, hrates⟩ := apply_unawarded happly rfl
      exact ⟨hmode, hcenter.trans htaken.center, hrates.trans htaken.rates⟩
  | edit old items description hfound hpending h =>
    cases hrow.symm.trans hfound
    exact ⟨_, h, htaken.mode, htaken.center, htaken.rates⟩
  | create draft hcreates hfresh h => rw [hfresh] at hrow; cases hrow
  | complete old batchId weights hcompletes hfound hverify h =>
    cases hrow.symm.trans hfound
    exact ⟨_, h, htaken.mode, htaken.center, htaken.rates⟩

def Claims (c : Race) (j : ℕ) (o : Outcome) (id centerId : String) (agreedRates : NumberRecord) :
    Prop :=
  ∃ updated, pending c j = some (.writeRequest id (.claimAutomatic centerId agreedRates)) ∧
    c.world.reply (.writeRequest id (.claimAutomatic centerId agreedRates)) o = .ok updated

theorem taken_of_claims {id k : String} {rates : NumberRecord}
    (hspared : ∀ t ∈ written c (.advance j o), Spared t.change t.row)
    (h : (system svc).step c (.advance j o) = some c') (hclaims : Claims c j o id k rates) :
    k ≠ "" ∧ ∃ row, c'.world.findRequest id = some row ∧ Taken row k rates := by
  obtain ⟨updated, hpending, hreply⟩ := hclaims
  obtain ⟨hdone, hchanged⟩ := deliverSome_ok hreply
  obtain ⟨row, hfound, happly⟩ := Option.bind_eq_some_iff.mp hchanged
  have hwrites : writes c (.advance j o) = some (id, .claimAutomatic k rates) := by
    simp only [writes, hdone, PinVerification.Delivery.applied, if_true, hpending]
    rfl
  obtain ⟨hk, hmode, -⟩ := hspared _ (written_eq hwrites hfound)
  obtain ⟨-, -, hafter⟩ := found_of_answered h hpending hreply
  cases happly
  exact ⟨hk, _, hafter, hmode, rfl, rfl⟩

theorem center_kept {id : String} {row row' : CollectionRequest} {w : World}
    (hspared : ∀ t ∈ written c e, Spared t.change t.row) (h : RowEffect c e id w)
    (hselect : ∀ k rates, writes c e ≠ some (id, .selectBid k rates))
    (hrow : c.world.findRequest id = some row) (hcentred : Centred row)
    (hcollector : row.collectorId ≠ none) (hrow' : w.findRequest id = some row') :
    row'.assignedCenterId = row.assignedCenterId ∧ row'.agreedRates = row.agreedRates := by
  cases h with
  | same h =>
    cases hrow.symm.trans (h.symm.trans hrow')
    exact ⟨rfl, rfl⟩
  | change change old new hwrites hfound happly h =>
    cases hrow.symm.trans hfound
    cases hrow'.symm.trans h
    cases change with
    | claimAutomatic centerId rates =>
      have hnone := (hspared _ (written_eq hwrites hfound)).2.2
      have hcenter := hcentred hcollector
      rw [hnone] at hcenter
      cases hcenter
    | selectBid centerId rates => exact absurd hwrites (hselect _ _)
    | _ => exact apply_unawarded happly rfl
  | edit old items description hfound hpending h =>
    cases hrow.symm.trans hfound
    cases hrow'.symm.trans h
    exact ⟨rfl, rfl⟩
  | create draft hcreates hfresh h => rw [hfresh] at hrow; cases hrow
  | complete old batchId weights hcompletes hfound hverify h =>
    cases hrow.symm.trans hfound
    cases hrow'.symm.trans h
    exact ⟨rfl, rfl⟩

/-- In a run in which no other centre is written to a request between what a claim reads of it and
its write, and bids are selected of requests in auction, a claim that was answered stands, and
nothing but the selection of a bid changes the centre or the rates of a request that a collector
has. -/
theorem claim_exclusive (svc : Service) {w : World} {es : List RaceEvent}
    (hids : (w.requests.map Request.id).Nodup) (hw : ∀ r ∈ w.requests, Centred r)
    (hfit : Along (system svc).step Fit (quiescent w) es)
    (hfresh : claims.Undisturbed (system svc) (quiescent w) es) :
    (∀ es₁ j o es₂ c₀ c c' id k rates, es = es₁ ++ .advance j o :: es₂ →
      run (system svc).step (quiescent w) es₁ = some c₀ → Claims c₀ j o id k rates →
      (system svc).step c₀ (.advance j o) = some c → run (system svc).step c es₂ = some c' →
      Priced c'.world id k rates) ∧
    Along (system svc).step (fun c e => ∀ c' id row row', (system svc).step c e = some c' →
      (∀ k rates, writes c e ≠ some (id, .selectBid k rates)) →
      c.world.findRequest id = some row → row.collectorId ≠ none →
      c'.world.findRequest id = some row' → row'.assignedCenterId = row.assignedCenterId ∧
        row'.agreedRates = row.agreedRates) (quiescent w) es := by
  have hspared : Along (system svc).step (fun c e =>
      (∀ r ∈ c.world.requests, Centred r) ∧ ∀ t ∈ written c e, Spared t.change t.row)
      (quiescent w) es := by
    refine (steady_claims svc).along (follows_program svc) (fun x e hknown hC hfresh => ?_)
      ⟨disciplined svc w, ⟨hids, hw⟩, fun j s hs => by cases hs⟩ hfit hfresh
    refine ⟨hknown.world.2, ?_⟩
    cases e with
    | advance j o =>
      intro t ht
      obtain ⟨hwrites, -⟩ := mem_written ht
      obtain ⟨i, hi, -⟩ := writes_advance hwrites
      obtain ⟨s, hs⟩ := stage_of_pending hi
      exact spared_call hC (hknown.stage j s hs) hi (allowed_pending hknown.disciplined hs hi)
        (hfresh i hi) t ht
    | _ => exact fun t ht => by cases (mem_written ht).1
  constructor
  · rintro es₁ j o es₂ c₀ c c' id k rates rfl hrun hclaims hstep hrun'
    have hlater := (along_append hspared).2 c₀ hrun
    obtain ⟨hk, htaken⟩ := taken_of_claims hlater.1.2 hstep hclaims
    obtain ⟨row, hrow, htaken⟩ := run_invariant
      (I := fun c => ∃ row, c.world.findRequest id = some row ∧ Taken row k rates)
      (fun c e c' h hC hstep => step_taken hk hC.2 hstep h) htaken (hlater.2 c hstep) hrun'
    exact ⟨row, hrow, htaken.center, htaken.rates⟩
  · refine along_mono (fun c e hC c' id row row' hstep hselect hrow hcollector hrow' => ?_) hspared
    exact center_kept hC.2 (step_row hstep id) hselect hrow (hC.1 row (mem_of_findRequest hrow))
      hcollector hrow'

/-! ### Two centres claim a request -/

def claim (j : ℕ) (centerId : String) : RaceEvent := .start j (.claimAutomatic centerId "request")

def unclaimed : World :=
  sampleWorld [{ sampleRow with assignedCenterId := none, agreedRates := none }] []

def samplePrices : NumberRecord := unclaimed.around.prices "center"

def claimedAtOnce : List RaceEvent :=
  claim 0 "center" :: answered 0 2 ++ claim 1 "depot" :: answered 1 2

def claimedFirst : List RaceEvent := claim 1 "depot" :: answered 1 2

/-- A collector accepts the request, and another centre's claim of it is refused. -/
def acceptedThenClaimed : List RaceEvent :=
  acceptance 2 "first" :: answered 2 7 ++ claim 0 "center" :: answered 0 1

instance (w : World) (id centerId : String) (agreedRates : NumberRecord) :
    Decidable (Priced w id centerId agreedRates) :=
  match h : w.findRequest id with
  | none => .isFalse fun ⟨row, hrow, _⟩ => by rw [h] at hrow; cases hrow
  | some row =>
    decidable_of_iff (row.assignedCenterId = some centerId ∧ row.agreedRates = some agreedRates)
      ⟨fun hrow => ⟨row, h, hrow⟩, fun ⟨r, hr, hrow⟩ => by
        rw [h] at hr
        cases hr
        exact hrow⟩

/-- In the state `c` the claim of the second centre is written and answered, and `es` follows. -/
def claimedBefore (c : Race) (es : List RaceEvent) (test : World → Bool) : Bool :=
  answeredWrite c 1 answer == some ("request", .claimAutomatic "depot" samplePrices) &&
    ((system sampleService).step c (.advance 1 answer)).any fun c =>
      (run (system sampleService).step c es).any fun c => test c.world

theorem of_claimedBefore {es : List RaceEvent} {test : World → Bool}
    (h : claimedBefore c es test = true) : Claims c 1 answer "request" "depot" samplePrices ∧
      ∃ c₁ c₂, (system sampleService).step c (.advance 1 answer) = some c₁ ∧
        run (system sampleService).step c₁ es = some c₂ ∧ test c₂.world = true := by
  rw [claimedBefore, Bool.and_eq_true, beq_iff_eq, Option.any_eq_true] at h
  obtain ⟨hclaims, c₁, hstep, h⟩ := h
  obtain ⟨c₂, hrun, htest⟩ := (Option.any_eq_true _ _).mp h
  exact ⟨of_answeredWrite hclaims, c₁, c₂, hstep, hrun, htest⟩

theorem claim_exclusive_inTurn : ∃ c' : Race, Priced c'.world "request" "depot" samplePrices ∧
    statusOf c'.world "request" = some .accepted := by
  have hrun : (run (system sampleService).step (quiescent unclaimed) claimedFirst).any
      (fun c => claimedBefore c acceptedThenClaimed fun w =>
        statusOf w "request" == some .accepted) = true := by decide +kernel
  obtain ⟨c₀, hc₀, htest⟩ := (Option.any_eq_true _ _).mp hrun
  obtain ⟨hclaims, c, c', hstep, hrun', hstatus⟩ := of_claimedBefore htest
  have hcentred : ∀ r ∈ unclaimed.requests, Centred r := by
    intro r hr
    obtain rfl := List.mem_singleton.mp hr
    exact fun hcollector => absurd rfl hcollector
  refine ⟨c', ?_, by simpa using hstatus⟩
  exact (claim_exclusive sampleService (by decide) hcentred (by decide +kernel)
    (by decide +kernel)).1 claimedFirst 1
    answer acceptedThenClaimed c₀ c c' "request" "depot" samplePrices rfl hc₀ hclaims hstep hrun'

/-- The claim of the first centre was checked before any of it, and is written last: over the claim
of the second one, on a request that a collector has accepted. -/
theorem claim_overwritten : ∃ c₀ c c',
    run (system sampleService).step (quiescent unclaimed) claimedAtOnce = some c₀ ∧
    Claims c₀ 1 answer "request" "depot" samplePrices ∧
    (system sampleService).step c₀ (.advance 1 answer) = some c ∧
    run (system sampleService).step c (acceptance 2 "first" :: answered 2 6 ++ answered 0 1) =
      some c' ∧
    statusOf c'.world "request" = some .accepted ∧
    ¬ Priced c'.world "request" "depot" samplePrices := by
  have hrun : (run (system sampleService).step (quiescent unclaimed) claimedAtOnce).any
      (fun c => claimedBefore c (acceptance 2 "first" :: answered 2 6 ++ answered 0 1) fun w =>
        statusOf w "request" == some .accepted &&
          decide (¬ Priced w "request" "depot" samplePrices)) = true := by decide +kernel
  obtain ⟨c₀, hc₀, htest⟩ := (Option.any_eq_true _ _).mp hrun
  obtain ⟨hclaims, c, c', hstep, hrun', htest⟩ := of_claimedBefore htest
  simp only [Bool.and_eq_true, beq_iff_eq, decide_eq_true_eq] at htest
  exact ⟨c₀, c, c', hc₀, hclaims, hstep, hrun', htest.1, htest.2⟩

end Livora.CollectionUniqueness
