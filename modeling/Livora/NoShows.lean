import Livora.DebitBounds
import Livora.StageViews

/-! The requests that nobody opens the door for: the reports of the collectors, the worker that
closes what waits too long, and the verifications of the PIN, in any order of their steps. A ledger
beside every run counts what was closed and what was paid for it, and holds the scores that the
households are due. -/

namespace Livora.NoShows

open TransitionRuns EffectPrograms EffectPrograms.Action ProgramPools ProgramPools.System StageViews
open CollectionBooks CollectionServices CollectionRaces
open CollectionServices.CollectionLifecycleService
open CollectionServices.CollectionsTimeoutWorker (closeUnattended processArrivedNoShowTimeouts)
open RewardStrategies (NumberRecord)
open PinVerification (RequestStatus Delivery)
open PinVerification.CollectionStateMachine (canVerifyPin)

/-! ### The calls -/

inductive Reporter where
  | reportNoShow (id collectorId : String)
  | arrivedNoShowTimeouts

def Reporter.caller : Reporter → Caller
  | .reportNoShow id collectorId => .reportNoShow id collectorId
  | .arrivedNoShowTimeouts => .arrivedNoShowTimeouts

inductive Beside where
  | pass (ms : ℕ)
  | complete (id : String) (targetBatchId : Option String) (actualWeights : NumberRecord)

def beside (w : World) : Beside → Option World
  | .pass ms => some { w with now := w.now + ms }
  | .complete id targetBatchId actualWeights =>
    some (w.completeRequest id targetBatchId actualWeights)

structure Visit where
  /-- The requests that were found and are still to be closed, each under the id it was asked
  for. -/
  queue : List (String × FoundRequest)
  /-- The request that was closed last. -/
  closed : Option String
  /-- Its household, as it was read, as long as its score is to be lowered. -/
  owed : Option User
  /-- The collector may still be compensated. -/
  rewards : Bool

def Visit.first : Visit := ⟨[], none, none, false⟩

def unattends : Change → Bool
  | .reportNoShow _ => true
  | .arrivedNoShow => true
  | _ => false

def compensates : Change → Bool
  | .reportNoShow _ => true
  | _ => false

/-- Nothing is done before the score of the household is lowered whose request was closed. -/
def Allowed (s : Visit) : Op → Prop
  | .writeRequest id change => s.owed = none ∧ unattends change = true ∧
      ∃ request rest, s.queue = (id, request) :: rest
  | .setReputation userId score => ∃ household, s.owed = some household ∧ userId = household.id ∧
      score = lowered household.reputationScore
  | .compensate _ _ _ => s.owed = none ∧ s.rewards = true
  | .clock => s.owed = none
  | .findParties _ => s.owed = none
  | .findWaiting _ => s.owed = none
  | .findVault _ => s.owed = none
  | .emit _ _ _ => s.owed = none
  | _ => False

def next (s : Visit) (i : Op) (r : Except Failure (Reply i)) : Visit :=
  match i, r with
  | .findParties id, .ok (some request) => { s with queue := [(id, request)] }
  | .findWaiting _, .ok requests =>
    { s with queue := requests.map fun request => (request.row.id, request) }
  | .writeRequest id change, .ok _ =>
    ⟨s.queue.tail, some id, s.queue.head?.bind fun entry => entry.2.household, compensates change⟩
  | .writeRequest _ _, .error _ => ⟨s.queue.tail, none, none, false⟩
  | .setReputation _ _, _ => { s with owed := none }
  | .compensate _ _ _, _ => { s with rewards := false }
  | _, _ => s

def protocol : Protocol Visit Op fun i => Except Failure (Reply i) where
  Allowed := Allowed
  next := next

def system (svc : Service) : System Reporter World Outcome Beside Visit Op
    (fun i => Except Failure (Reply i)) (Except Failure Result) where
  program reporter := (program svc reporter.caller).run
  serve := World.serve
  outside := beside
  protocol := protocol
  first := .first

abbrev Door :=
  Pool World (Task Visit Op (fun i => Except Failure (Reply i)) (Except Failure Result))

abbrev DoorEvent := Event Reporter Outcome Beside

/-! ### What the programs do -/

/-- A program ends when no score is to be lowered any more. -/
abbrev Settles {α : Type} (s : Visit) (a : Work α) : Prop :=
  Obeys protocol (fun t _ => t.owed = none) s a

variable {svc : Service} {s : Visit} {α β : Type}

theorem settles_call {i : Op} (h : Allowed s i) (hs : s.owed = none) (hnext : ∀ r, next s i r = s)
    {f : Reply i → Work β} (hf : ∀ x, Settles s (f x)) : Settles s (call i >>= f) := by
  refine obeys_call.mpr ⟨h, fun x => ?_, fun e => ?_⟩
  · change Settles (next s i (.ok x)) (f x)
    rw [hnext]
    exact hf x
  · change (next s i (.error e)).owed = none
    rw [hnext]
    exact hs

theorem obeys_waitAtDoor (hs : s.owed = none) (arrivedAt : Option ℕ) :
    Obeys protocol (fun t _ => t = s) s (waitAtDoor svc arrivedAt) := by
  unfold waitAtDoor
  split
  · refine obeys_call.mpr ⟨hs, fun now => ?_, fun _ => rfl⟩
    split
    · exact obeys_throw.mpr rfl
    · exact obeys_pure.mpr rfl
  · exact obeys_pure.mpr rfl

theorem obeys_penalize {household : Option User} (hs : s.owed = household) :
    Obeys protocol (fun t _ => t = { s with owed := none }) s (penalize household) := by
  cases household with
  | none =>
    refine obeys_pure.mpr ?_
    rw [← hs]
  | some household => exact ⟨⟨household, hs, rfl, rfl⟩, fun _ => rfl⟩

theorem obeys_findVault (hs : s.owed = none) (household : Option User) :
    Obeys protocol (fun t _ => t = s) s (findVault household) := by
  cases household with
  | none => exact obeys_pure.mpr rfl
  | some household => exact ⟨hs, fun _ => rfl⟩

theorem settles_compensate (hs : s.owed = none) (hrewards : s.rewards = true)
    (vault : Option String)
    (collector : Option User) : Settles s (compensate svc vault collector) := by
  unfold compensate
  split
  · refine obeys_recover.mpr ?_
    split
    · exact hs
    · exact ⟨⟨hs, hrewards⟩, fun r => by cases r <;> exact hs⟩
  · exact hs

theorem settles_noShow {id collectorId : String} {request : FoundRequest} (hs : s.owed = none)
    (hqueue : s.queue = [(id, request)]) : Settles s (noShow svc id collectorId request) := by
  refine obeys_call.mpr ⟨⟨hs, rfl, request, [], hqueue⟩, fun updated => ?_, fun _ => rfl⟩
  have hstage : protocol.next s (.writeRequest id (.reportNoShow collectorId)) (.ok updated) =
      ⟨[], some id, request.household, true⟩ := by
    change Visit.mk s.queue.tail _ (s.queue.head?.bind _) _ = _
    rw [hqueue]
    rfl
  rw [hstage]
  refine obeys_bind.mpr ((obeys_penalize rfl).mono ?_ ?_)
  · rintro t _ rfl
    refine obeys_bind.mpr ((obeys_findVault rfl request.household).mono ?_ ?_)
    · rintro u vault rfl
      refine obeys_bind.mpr ((settles_compensate rfl rfl vault request.collector).mono ?_
        fun _ _ h => h)
      rintro v _ hv
      exact settles_call
        (i := .emit .collectorsActive "collection:updated" (.request updated.stripPin)) hv hv
        (fun _ => rfl) fun _ => hv
    · rintro u e rfl
      rfl
  · rintro t e rfl
    rfl

theorem settles_reportNoShow {id collectorId : String} (hs : s.owed = none) :
    Settles s (reportNoShow svc id collectorId) := by
  refine obeys_call.mpr ⟨hs, fun found => ?_, fun _ => hs⟩
  cases found with
  | none => exact hs
  | some request =>
    change Settles { s with queue := [(id, request)] } _
    dsimp only
    split
    · split
      · refine obeys_bind.mpr ((obeys_waitAtDoor (s := { s with queue := [(id, request)] }) hs
          request.row.arrivedAt).mono ?_ ?_)
        · rintro t _ rfl
          exact settles_noShow hs rfl
        · rintro t e rfl
          exact hs
      · exact hs
    · exact hs

theorem obeys_closeUnattended {request : FoundRequest} {rest : List (String × FoundRequest)}
    (hs : s.owed = none) (hqueue : s.queue = (request.row.id, request) :: rest) :
    Obeys protocol (fun t _ => t.owed = none ∧ t.queue = rest) s
      (recover (closeUnattended request) ()) := by
  refine obeys_recover.mpr (obeys_call.mpr ⟨⟨hs, rfl, request, rest, hqueue⟩, fun updated =>
    ?_, fun _ => ?_⟩)
  · have hstage : protocol.next s (.writeRequest request.row.id .arrivedNoShow) (.ok updated) =
        ⟨rest, some request.row.id, request.household, false⟩ := by
      change Visit.mk s.queue.tail _ (s.queue.head?.bind _) _ = _
      rw [hqueue]
      rfl
    rw [hstage]
    refine obeys_recover.mpr ((obeys_penalize rfl).mono ?_ ?_)
    · rintro t _ rfl
      exact ⟨rfl, rfl⟩
    · rintro t _ rfl
      exact ⟨rfl, rfl⟩
  · refine ⟨rfl, ?_⟩
    change s.queue.tail = rest
    rw [hqueue]
    rfl

theorem settles_closeEach {requests : List FoundRequest} (hs : s.owed = none)
    (hqueue : s.queue = requests.map fun request => (request.row.id, request)) :
    Settles s (forEach requests fun request => recover (closeUnattended request) ()) := by
  induction requests generalizing s with
  | nil => exact hs
  | cons request rest ih =>
    refine obeys_bind.mpr ((obeys_closeUnattended hs hqueue).mono ?_ fun _ _ h => h.1)
    rintro t _ ⟨ht, hrest⟩
    exact ih ht hrest

theorem settles_processArrivedNoShowTimeouts (hs : s.owed = none) :
    Settles s processArrivedNoShowTimeouts := by
  refine settles_call (i := .clock) hs hs (fun _ => rfl) fun now => ?_
  refine obeys_call.mpr ⟨hs, fun requests => ?_, fun _ => hs⟩
  exact settles_closeEach
    (s := { s with queue := requests.map fun request => (request.row.id, request) })
    hs rfl

theorem keeps_reporter (svc : Service) (reporter : Reporter) :
    Keeps (system svc).protocol (fun t _ => t.owed = none) (system svc).first
      ((system svc).program reporter) := by
  cases reporter with
  | reportNoShow id collectorId =>
    exact obeys_bind.mpr ((settles_reportNoShow rfl).mono (fun _ _ h => h) fun _ _ h => h)
  | arrivedNoShowTimeouts =>
    exact obeys_bind.mpr ((settles_processArrivedNoShowTimeouts rfl).mono (fun _ _ h => h)
      fun _ _ h => h)

/-! ### The ledger -/

def closing (w : World) : Op → Option CollectionRequest
  | .writeRequest id change =>
    (w.findRequest id).filter fun row => unattends change && row.status != .unattended
  | _ => none

def closes (c : Door) : DoorEvent → Option CollectionRequest
  | .advance j o => if o.delivery.applied then (pending c j).bind (closing c.world) else none
  | _ => none

def paying (s : Option Visit) : Op → Option String
  | .compensate _ _ _ => s.bind Visit.closed
  | _ => none

def pays (c : Door) : DoorEvent → Option String
  | .advance j o => if o.delivery.applied then (pending c j).bind (paying (stages c j)) else none
  | _ => none

def scoreOf (w : World) (userId : String) : Option ℚ := (w.findUser userId).map User.reputationScore

structure Ledger where
  /-- How often a request became UNATTENDED. -/
  closings : String → ℕ
  /-- How often a collector was compensated for it. -/
  transfers : String → ℕ
  /-- The score of a user, lowered once for every request that became UNATTENDED. -/
  due : String → Option ℚ

def Ledger.after (l : Ledger) (closed : Option CollectionRequest) (paid : Option String) :
    Ledger where
  closings x := l.closings x + if closed.map Request.id = some x then 1 else 0
  transfers x := l.transfers x + if paid = some x then 1 else 0
  due u := if closed.map Request.householdId = some u then (l.due u).map lowered else l.due u

/-- A run of the calls with its ledger. -/
structure Audited where
  door : Door
  ledger : Ledger

def audit (svc : Service) (c : Audited) (e : DoorEvent) : Option Audited :=
  ((system svc).step c.door e).map fun door =>
    ⟨door, c.ledger.after (closes c.door e) (pays c.door e)⟩

def opened (w : World) : Audited := ⟨⟨w, fun _ => none⟩, ⟨fun _ => 0, fun _ => 0, scoreOf w⟩⟩

/-- A request is closed once at most and compensated once at most where it was closed; one that is
not UNATTENDED, a completed one say, was neither. Whoever's score is not about to be written has the
one that he is due. -/
structure Fair (c : Audited) : Prop where
  once : ∀ x, c.ledger.closings x ≤ 1
  paid : ∀ x, c.ledger.transfers x ≤ c.ledger.closings x
  untouched : ∀ x, statusOf c.door.world x ≠ some .unattended →
    c.ledger.closings x = 0 ∧ c.ledger.transfers x = 0
  lowered : ∀ u, (∀ j score, pending c.door j ≠ some (.setReputation u score)) →
    scoreOf c.door.world u = c.ledger.due u

def target : Op → Option String
  | .writeRequest id _ => some id
  | _ => none

def lowers : Op → Bool
  | .setReputation _ _ => true
  | _ => false

/-- Where a request is to become UNATTENDED it is still ARRIVED, and the program learns of it; the
score that is to be lowered is still as it was read, and it is written; and no program is stopped
before. -/
def Orderly (c : Audited) : DoorEvent → Prop
  | .advance j o =>
    (∀ id ∈ (pending c.door j).bind target, o.delivery.applied = true →
      ∀ row ∈ c.door.world.findRequest id, row.status = .arrived ∧ o.delivery = .done) ∧
    ((pending c.door j).any lowers = true → o.delivery.applied = true ∧
      ∀ household ∈ (stages c.door j).bind Visit.owed,
        scoreOf c.door.world household.id = some household.reputationScore)
  | .stop j => (stages c.door j).bind Visit.owed = none
  | _ => True

instance (c : Audited) : (e : DoorEvent) → Decidable (Orderly c e)
  | .advance _ _ => inferInstanceAs (Decidable (_ ∧ _))
  | .stop _ => inferInstanceAs (Decidable (_ = _))
  | .start _ _ => .isTrue trivial
  | .outside _ => .isTrue trivial

/-! ### Half a star -/

section Cents

open DoubleRounding RewardStrategies

theorem toFixed_near {x : ℚ} {z : ℤ} (hx : |x - z / 100| < 1 / 200) (hpos : 0 ≤ x)
    (hsmall : x < 10 ^ 21) :
    toFixed x 2 = fl (z / 100) := by
  obtain ⟨hl, hu⟩ := abs_lt.mp hx
  have hround : round (x * 10 ^ 2) = z := round_eq_iff.mpr ⟨by linarith, by linarith⟩
  rw [DebitBounds.toFixed_of_small hpos hsmall, hround]
  norm_num

theorem abs_fl_half_sub_lt {k : ℕ} (hk : k < 2 ^ 20) :
    |fl (fl (k / 100) - 1 / 2) - ((k : ℤ) - 50 : ℤ) / 100| < 1 / 200 := by
  have hk' : (k : ℚ) < 2 ^ 20 := by exact_mod_cast hk
  have hscore : |fl ((k : ℚ) / 100) - k / 100| ≤ 2 ^ (14 - 54 : ℤ) := by
    refine abs_fl_sub_le_of_lt ?_ (by norm_num)
    rw [abs_of_nonneg (by positivity)]
    norm_num
    linarith
  obtain ⟨hl, hu⟩ := abs_le.mp hscore
  have hdiff : |fl (fl ((k : ℚ) / 100) - 1 / 2) - (fl ((k : ℚ) / 100) - 1 / 2)| ≤
      2 ^ (14 - 54 : ℤ) := by
    have hnonneg : (0 : ℚ) ≤ k := Nat.cast_nonneg k
    refine abs_fl_sub_le_of_lt (abs_lt.mpr ?_) (by norm_num)
    constructor <;> norm_num at hl hu ⊢ <;> linarith
  obtain ⟨hl', hu'⟩ := abs_le.mp hdiff
  push_cast
  rw [abs_lt]
  constructor <;> norm_num at hl hu hl' hu' ⊢ <;> linarith

theorem lowered_cents {k : ℕ} (hk : k < 2 ^ 20) :
    lowered (fl (k / 100)) = fl ((max 100 (k - 50) : ℕ) / 100) := by
  have hone : fl 1 = 1 := by
    have hcast := fl_intCast (n := 1) (by norm_num)
    exact_mod_cast hcast
  have hnear := abs_fl_half_sub_lt hk
  obtain ⟨hl, hu⟩ := abs_lt.mp hnear
  rw [lowered]
  generalize fl (fl ((k : ℚ) / 100) - 1 / 2) = d at hnear hl hu ⊢
  have hk' : (k : ℚ) < 2 ^ 20 := by exact_mod_cast hk
  push_cast at hl hu
  have hsmall : d < 10 ^ 21 := by linarith
  rcases le_or_gt k 150 with hfloor | habove
  · rw [max_eq_left (by omega : k - 50 ≤ 100), max_eq_left]
    · norm_num [hone]
    · rcases le_or_gt d 0 with hneg | hpos
      · exact (DebitBounds.toFixed_nonpos hneg).trans zero_le_one
      · rw [toFixed_near hnear hpos.le hsmall]
        refine (fl_mono ?_).trans_eq hone
        have hfloor' : (k : ℚ) ≤ 150 := by exact_mod_cast hfloor
        push_cast
        linarith
  · have habove' : (151 : ℚ) ≤ k := by exact_mod_cast habove
    have hcast : (((k : ℤ) - 50 : ℤ) : ℚ) = (k - 50 : ℕ) := by
      rw [Nat.cast_sub (by omega)]
      push_cast
      ring
    rw [toFixed_near hnear (by linarith) hsmall, max_eq_right (by omega : 100 ≤ k - 50), hcast,
      max_eq_right]
    have hle : (1 : ℚ) ≤ (k - 50 : ℕ) / 100 := by
      rw [← hcast]
      push_cast
      linarith
    exact hone.symm.trans_le (fl_mono hle)

end Cents

/-! ### What is kept -/

/-- The request is in the table, and the household that was found is its own. -/
def Known (w : World) (entry : String × FoundRequest) : Prop :=
  ∃ row household, w.findRequest entry.1 = some row ∧ entry.2.household = some household ∧
    household.id = row.householdId

namespace Visit

def rewarding (s : Visit) : Option String := if s.rewards then s.closed else none

def owedTo (s : Visit) : Option String := s.owed.map User.id

end Visit

structure Kept (w : World) (st : ℕ → Option Visit) (l : Ledger) : Prop where
  ids : (w.requests.map Request.id).Nodup
  homes : ∀ row ∈ w.requests, (w.findUser row.householdId).isSome
  queue : ∀ j s, st j = some s → ∀ entry ∈ s.queue, Known w entry
  once : ∀ x, l.closings x = 0 ∨ l.closings x = 1 ∧ statusOf w x = some .unattended
  paid : ∀ x, l.transfers x ≤ l.closings x
  rewarding : ∀ j x, view Visit.rewarding st j = some x → l.closings x = 1 ∧ l.transfers x = 0
  apart : ∀ i j x, view Visit.rewarding st i = some x → view Visit.rewarding st j = some x → i = j
  owed : ∃ owers : String → Finset ℕ, Holders Visit.owedTo st owers ∧
    ∀ u, l.due u = (scoreOf w u).map lowered^[(owers u).card]

variable {w w' : World} {st : ℕ → Option Visit} {l : Ledger} {j : ℕ} {t : Option Visit}

theorem kept_quiet (h : Kept w st l) (hqueue : ∀ s, t = some s → ∀ entry ∈ s.queue, Known w entry)
    (howed : view Visit.owedTo st j = t.bind Visit.owedTo)
    (hrewarding : t.bind Visit.rewarding = none ∨
      view Visit.rewarding st j = t.bind Visit.rewarding) :
    Kept w (Function.update st j t) l := by
  have hview : ∀ i x, view Visit.rewarding (Function.update st j t) i = some x →
      view Visit.rewarding st i = some x := by
    intro i x hx
    rcases hrewarding with hnone | hsame
    · exact (view_release hnone hx).2
    · rwa [view_keep hsame] at hx
  obtain ⟨owers, hmem, hdue⟩ := h.owed
  refine ⟨h.ids, h.homes, knows_update (fun k s _ hs => h.queue k s hs) hqueue, h.once, h.paid,
    fun i x hx => h.rewarding i x (hview i x hx),
    fun i k x hi hk => h.apart i k x (hview i x hi) (hview k x hk), owers,
      holders_keep hmem howed, hdue⟩

theorem kept_world (h : Kept w st l) (hids : (w'.requests.map Request.id).Nodup)
    (hhomes : ∀ row ∈ w'.requests, ∃ old ∈ w.requests, old.householdId = row.householdId)
    (husers : w'.around.users = w.around.users)
    (hrows : ∀ x row, w.findRequest x = some row → ∃ row', w'.findRequest x = some row' ∧
      row'.householdId = row.householdId ∧ (row.status = .unattended → row'.status = .unattended)) :
    Kept w' st l := by
  have huser : ∀ u, w'.findUser u = w.findUser u := fun u => by unfold World.findUser; rw [husers]
  obtain ⟨owers, hmem, hdue⟩ := h.owed
  refine ⟨hids, fun row hrow => ?_, fun j s hs entry hentry => ?_, fun x =>
    (h.once x).imp_right ?_, h.paid, h.rewarding, h.apart, owers, hmem, fun u => ?_⟩
  · obtain ⟨old, hold, heq⟩ := hhomes row hrow
    rw [huser, ← heq]
    exact h.homes old hold
  · obtain ⟨row, household, hrow, hfound, hid⟩ := h.queue j s hs entry hentry
    obtain ⟨row', hrow', heq, -⟩ := hrows _ row hrow
    exact ⟨row', household, hrow', hfound, hid.trans heq.symm⟩
  · rintro ⟨hone, hstatus⟩
    obtain ⟨row, hrow, hunattended⟩ := Option.map_eq_some_iff.mp hstatus
    obtain ⟨row', hrow', -, hkeep⟩ := hrows x row hrow
    refine ⟨hone, ?_⟩
    rw [statusOf, hrow', Option.map_some, hkeep hunattended]
  · rw [hdue u, scoreOf, scoreOf, huser]

/-! #### A request is closed -/

theorem unattended_apply {change : Change} (h : unattends change = true) (now : ℕ)
    (row : CollectionRequest) : ∃ row', change.apply now row = some row' ∧
      row'.status = .unattended ∧
      row'.id = row.id ∧ row'.householdId = row.householdId := by
  cases change with
  | reportNoShow collectorId => exact ⟨_, rfl, rfl, rfl, rfl⟩
  | arrivedNoShow => exact ⟨_, rfl, rfl, rfl, rfl⟩
  | _ => cases h

theorem kept_set (h : Kept w st l) {id : String} {row row' : CollectionRequest}
    (hfound : w.findRequest id = some row) (hid : row'.id = row.id)
    (hhome : row'.householdId = row.householdId)
    (hstatus : row.status = .unattended → row'.status = .unattended) :
    Kept (w.setRequest row') st l := by
  refine kept_world h (by rw [ids_setRequest]; exact h.ids) (fun r hr => ?_) rfl fun x r hr => ?_
  · rcases mem_setRequest hr with rfl | hr
    · exact ⟨row, mem_of_findRequest hfound, hhome.symm⟩
    · exact ⟨r, hr, rfl⟩
  · rw [findRequest_set hfound hid]
    split
    · rename_i hx
      rw [hx] at hr
      cases hfound.symm.trans hr
      exact ⟨row', rfl, hhome, hstatus⟩
    · exact ⟨r, hr, rfl, fun h => h⟩

theorem Kept.untouched (h : Kept w st l) {x : String} (hstatus : statusOf w x ≠ some .unattended) :
    l.closings x = 0 ∧ l.transfers x = 0 := by
  have hclosings := (h.once x).resolve_right fun hone => hstatus hone.2
  have hpaid := h.paid x
  exact ⟨hclosings, by omega⟩

variable {s : Visit} {id : String} {request : FoundRequest} {rest : List (String × FoundRequest)}
  {change : Change} {row row' : CollectionRequest}

theorem kept_close (h : Kept w st l) (hs : st j = some s) (howed : s.owed = none)
    (hqueue : s.queue = (id, request) :: rest) (hchange : unattends change = true)
    (hfound : w.findRequest id = some row) (harrived : row.status = .arrived)
    (happly : change.apply w.now row = some row') :
    Kept (w.setRequest row')
      (Function.update st j (some ⟨rest, some id, request.household, compensates change⟩))
      (l.after (some row) none) := by
  obtain ⟨closed, hclosed, hunattended, hid, hhome⟩ := unattended_apply hchange w.now row
  cases happly.symm.trans hclosed
  have hrowid := id_of_findRequest hfound
  have hset := kept_set h hfound hid hhome fun h => by rw [harrived] at h; cases h
  have hstatus : statusOf (w.setRequest row') id = some .unattended := by
    rw [statusOf, findRequest_set hfound hid, if_pos rfl, Option.map_some, hunattended]
  obtain ⟨hclosings, htransfers⟩ := h.untouched (x := id) (by
    rw [statusOf, hfound, Option.map_some, harrived]
    decide)
  have hafter : ∀ x, (l.after (some row) none).closings x = if x = id then 1 else l.closings x := by
    intro x
    change l.closings x + (if some row.id = some x then 1 else 0) = _
    rw [hrowid]
    by_cases hx : x = id
    · rw [if_pos hx, hx, if_pos rfl, hclosings]
    · rw [if_neg hx, if_neg fun h => hx (Option.some.inj h).symm, add_zero]
  have hrewarding : ∀ x,
    (some (Visit.mk rest (some id) request.household (compensates change))).bind
      Visit.rewarding = some x → x = id := by
    intro x hx
    change (if compensates change = true then some id else none) = some x at hx
    split at hx
    · exact (Option.some.inj hx).symm
    · cases hx
  refine ⟨hset.ids, hset.homes, knows_update (fun k s _ hs => hset.queue k s hs) ?_, fun x => ?_,
    fun x => ?_, fun i x hx => ?_, apart_take h.apart ?_, ?_⟩
  · rintro t ht entry hentry
    cases ht
    exact hset.queue j s hs entry (by rw [hqueue]; exact List.mem_cons_of_mem _ hentry)
  · rw [hafter]
    split
    · rename_i hx
      exact .inr ⟨rfl, by rw [hx]; exact hstatus⟩
    · exact hset.once x
  · exact (h.paid x).trans (Nat.le_add_right _ _)
  · rw [hafter]
    change _ ∧ l.transfers x = 0
    rcases view_cases hx with ⟨-, hx⟩ | ⟨-, hx⟩
    · rw [if_pos (hrewarding x hx), hrewarding x hx]
      exact ⟨rfl, htransfers⟩
    · obtain ⟨hone, hzero⟩ := h.rewarding i x hx
      refine ⟨?_, hzero⟩
      split
      · rfl
      · exact hone
  · intro x hx k hk hview
    have hone := (h.rewarding k x hview).1
    rw [hrewarding x hx, hclosings] at hone
    cases hone
  · obtain ⟨owers, hholders, hdue⟩ := h.owed
    obtain ⟨r, household, hr, hhousehold, hhouseholdId⟩ :=
      h.queue j s hs (id, request) (by rw [hqueue]; exact List.mem_cons_self)
    cases hfound.symm.trans hr
    have hnone : view Visit.owedTo st j = none := by
      rw [view_eq hs, Visit.owedTo, howed, Option.map_none]
    obtain ⟨htake, hcard⟩ := holders_take (x := row.householdId) (t := some
      ⟨rest, some id, request.household, compensates change⟩) hholders hnone (by
        change request.household.map User.id = _
        rw [hhousehold, Option.map_some, hhouseholdId])
    refine ⟨_, htake, fun u => ?_⟩
    change (if some row.householdId = some u then (l.due u).map lowered else l.due u) =
      (scoreOf w u).map _
    by_cases hu : u = row.householdId
    · rw [hu, if_pos rfl, Function.update_self, hcard, hdue, Option.map_map, Function.iterate_succ']
    · rw [if_neg fun h => hu (Option.some.inj h).symm, Function.update_of_ne hu, hdue]

/-! #### A score is lowered, and a collector compensated -/

theorem findUser_setReputation (w : World) (userId u : String) (score : ℚ) :
    (w.setReputation userId score).findUser u =
      (w.findUser u).map fun user =>
        if user.id = userId then { user with reputationScore := score } else user := by
  unfold World.findUser World.setReputation
  rw [List.find?_map]
  congr 2
  funext user
  by_cases huser : user.id = userId
  · simp [huser]
  · simp [huser]

theorem scoreOf_setReputation (w : World) (userId u : String) (score : ℚ) :
    scoreOf (w.setReputation userId score) u =
      if u = userId then (scoreOf w u).map fun _ => score else scoreOf w u := by
  unfold scoreOf
  rw [findUser_setReputation, Option.map_map]
  cases hfind : w.findUser u with
  | none => split <;> rfl
  | some user =>
    have hid : user.id = u := by simpa using List.find?_some hfind
    by_cases hu : u = userId
    · simp [hid, hu]
    · simp [hid, hu]

theorem kept_lower (h : Kept w st l) (hs : st j = some s) {household : User}
    (howed : s.owed = some household)
    (hscore : scoreOf w household.id = some household.reputationScore) :
    Kept (w.setReputation household.id (lowered household.reputationScore))
      (Function.update st j (some { s with owed := none })) l := by
  have hview : view Visit.rewarding st j = (some { s with owed := none }).bind Visit.rewarding := by
    rw [view_eq hs]
    rfl
  refine ⟨h.ids, fun row hrow => ?_, knows_update (fun k s _ hs => h.queue k s hs) ?_,
    h.once, h.paid, fun i x hx => ?_, fun i k x hi hk => ?_, ?_⟩
  · rw [findUser_setReputation, Option.isSome_map]
    exact h.homes row hrow
  · rintro t ht entry hentry
    cases ht
    exact h.queue j s hs entry hentry
  · rw [view_keep hview] at hx
    exact h.rewarding i x hx
  · rw [view_keep hview] at hi hk
    exact h.apart i k x hi hk
  · obtain ⟨owers, hholders, hdue⟩ := h.owed
    obtain ⟨hrelease, hcard⟩ := holders_release (x := household.id)
      (t := some { s with owed := none }) hholders
      (by rw [view_eq hs, Visit.owedTo, howed, Option.map_some]) rfl
    refine ⟨_, hrelease, fun u => ?_⟩
    rw [hdue, scoreOf_setReputation]
    by_cases hu : u = household.id
    · rw [hu, if_pos rfl, Function.update_self, hcard, hscore, Option.map_some, Option.map_some,
        Option.map_some, Function.iterate_succ_apply]
    · rw [if_neg hu, Function.update_of_ne hu]

theorem kept_compensate (h : Kept w st l) (hs : st j = some s) (hrewards : s.rewards = true)
    (compensations : List (String × String × ℚ)) :
    Kept { w with compensations := compensations }
      (Function.update st j (some { s with rewards := false })) (l.after none s.closed) := by
  have hview : view Visit.rewarding st j = s.closed := by
    rw [view_eq hs, Visit.rewarding, if_pos hrewards]
  have howed : view Visit.owedTo st j = (some { s with rewards := false }).bind Visit.owedTo := by
    rw [view_eq hs]
    rfl
  have hquiet := kept_quiet h (t := some { s with rewards := false }) (j := j) (by
    rintro t ht
    cases ht
    exact h.queue j s hs) howed (.inl rfl)
  have htransfers : ∀ x, (l.after none s.closed).transfers x =
      l.transfers x + if s.closed = some x then 1 else 0 := fun _ => rfl
  refine ⟨hquiet.ids, hquiet.homes, hquiet.queue, hquiet.once, fun x => ?_, fun i x hx => ?_,
    hquiet.apart, hquiet.owed⟩
  · rw [htransfers]
    change _ ≤ l.closings x
    split
    · rename_i hx
      rw [hx] at hview
      obtain ⟨hone, hzero⟩ := h.rewarding j x hview
      rw [hone, hzero]
    · exact h.paid x
  · obtain ⟨hone, hzero⟩ := hquiet.rewarding i x hx
    refine ⟨hone, ?_⟩
    rw [htransfers, hzero, if_neg]
    intro hclosed
    rw [hclosed] at hview
    have hdropped : (some { s with rewards := false }).bind Visit.rewarding = none := rfl
    obtain ⟨hne, hi⟩ := view_release hdropped hx
    exact hne (h.apart i j x hi hview)

/-! ### Steps and runs -/

theorem after_none (l : Ledger) : l.after none none = l := by
  unfold Ledger.after
  simp

def quiet : Op → Bool
  | .clock => true
  | .findParties _ => true
  | .findWaiting _ => true
  | .findVault _ => true
  | .emit _ _ _ => true
  | _ => false

variable {i : Op} {o : Outcome}

theorem after_quiet (h : quiet i = true) : w.after i o = w := by
  unfold World.after World.update
  cases i <;> first | exact ite_self _ | cases h

theorem known_quiet (hids : (w.requests.map Request.id).Nodup)
    (hhomes : ∀ row ∈ w.requests, (w.findUser row.householdId).isSome) (h : quiet i = true)
    (hqueue : ∀ entry ∈ s.queue, Known w entry) :
    ∀ entry ∈ (next s i (w.reply i o)).queue, Known w entry := by
  have hparties : ∀ row, w.findRequest row.id = some row → Known w (row.id, w.withParties row) := by
    intro row hrow
    obtain ⟨household, hhousehold⟩ :=
      Option.isSome_iff_exists.mp (hhomes row (mem_of_findRequest hrow))
    exact ⟨row, household, hrow, hhousehold, by simpa using List.find?_some hhousehold⟩
  cases hreply : w.reply i o with
  | error e => cases i <;> first | exact hqueue | cases h
  | ok x =>
    cases i with
    | findParties id =>
      obtain ⟨-, hfound⟩ := Delivery.answer_ok hreply
      cases x with
      | none => exact hqueue
      | some request =>
        obtain ⟨row, hrow, rfl⟩ := Option.map_eq_some_iff.mp hfound
        intro entry hentry
        obtain rfl := List.mem_singleton.mp hentry
        have hid := id_of_findRequest hrow
        subst hid
        exact hparties row hrow
    | findWaiting before =>
      obtain ⟨-, rfl⟩ := Delivery.answer_ok hreply
      intro entry hentry
      obtain ⟨request, hrequest, rfl⟩ := List.mem_map.mp hentry
      obtain ⟨row, hrow, rfl⟩ := List.mem_map.mp hrequest
      exact hparties row
        (findRequest_of_mem hids (List.mem_filter.mp (List.mem_of_mem_take hrow)).1)
    | clock => exact hqueue
    | findVault userId => exact hqueue
    | emit room event payload => exact hqueue
    | _ => cases h

theorem next_quiet (h : quiet i = true) (r : Except Failure (Reply i)) :
    (next s i r).owedTo = s.owedTo ∧ (next s i r).rewarding = s.rewarding := by
  cases i with
  | findParties id => rcases r with _ | _ | _ <;> exact ⟨rfl, rfl⟩
  | findWaiting before => cases r <;> exact ⟨rfl, rfl⟩
  | clock => exact ⟨rfl, rfl⟩
  | findVault userId => exact ⟨rfl, rfl⟩
  | emit room event payload => exact ⟨rfl, rfl⟩
  | _ => cases h

theorem kept_read (h : Kept w st l) (hs : st j = some s) (hi : quiet i = true) :
    Kept (w.after i o) (Function.update st j (some (next s i (w.reply i o)))) l := by
  obtain ⟨howed, hrewarding⟩ := next_quiet hi (w.reply i o)
  rw [after_quiet hi]
  refine kept_quiet h ?_ ((view_eq hs).trans howed.symm) (.inr ((view_eq hs).trans hrewarding.symm))
  rintro t ht
  cases ht
  exact known_quiet h.ids h.homes hi (h.queue j s hs)

theorem kept_write (h : Kept w st l) (hs : st j = some s) {id : String} {change : Change}
    (hi : Allowed s (.writeRequest id change)) (ho : o.delivery.applied = true →
      ∀ row ∈ w.findRequest id, row.status = .arrived ∧ o.delivery = .done) :
    Kept (w.after (.writeRequest id change) o)
      (Function.update st j
        (some (next s (.writeRequest id change) (w.reply (.writeRequest id change) o))))
      (l.after
        (if o.delivery.applied then closing w (.writeRequest id change) else none) none) := by
  obtain ⟨howed, hchange, request, rest, hqueue⟩ := hi
  -- nothing is written, and the program learns of it
  have hfailed : ∀ e,
    Kept w (Function.update st j (some (next s (.writeRequest id change) (.error e)))) l := by
    intro e
    refine kept_quiet h ?_ ?_ (.inl rfl)
    · rintro t ht entry hentry
      cases ht
      exact h.queue j s hs entry (List.mem_of_mem_tail hentry)
    · rw [view_eq hs, Visit.owedTo, howed]
      rfl
  cases hfound : w.findRequest id with
  | none =>
    have hchanged : w.changed id change = none := by rw [World.changed, hfound]; rfl
    have hafter : w.after (.writeRequest id change) o = w := by
      unfold World.after World.update
      split
      · change w.writeRequest id change = w
        rw [World.writeRequest, hchanged]
      · rfl
    have hclosing : closing w (.writeRequest id change) = none := by rw [closing, hfound]; rfl
    have hreply : w.reply (.writeRequest id change) o = .error .outside := by
      change deliverSome o.delivery (w.changed id change) = _
      rw [hchanged]
      rfl
    rw [hafter, hclosing, ite_self, after_none, hreply]
    exact hfailed _
  | some row =>
    cases happlied : o.delivery.applied with
    | false =>
      have hafter : w.after (.writeRequest id change) o = w := by
        rw [World.after, World.update, happlied]
        rfl
      have hreply : ∃ e, w.reply (.writeRequest id change) o = .error e := by
        cases hreply : w.reply (.writeRequest id change) o with
        | error e => exact ⟨e, rfl⟩
        | ok x =>
          obtain ⟨hdone, -⟩ := deliverSome_ok hreply
          rw [hdone] at happlied
          cases happlied
      obtain ⟨e, he⟩ := hreply
      rw [hafter, he, if_neg Bool.false_ne_true, after_none]
      exact hfailed e
    | true =>
      obtain ⟨harrived, hdone⟩ := ho happlied row hfound
      obtain ⟨row', happly, -⟩ := unattended_apply hchange w.now row
      have hchanged : w.changed id change = some row' := by rw [World.changed, hfound]; exact happly
      have hafter : w.after (.writeRequest id change) o = w.setRequest row' := by
        rw [World.after, World.update, if_pos happlied]
        change w.writeRequest id change = _
        rw [World.writeRequest, hchanged]
      have hclosing : closing w (.writeRequest id change) = some row := by
        rw [closing, hfound, Option.filter_some, hchange, harrived]
        rfl
      have hreply : w.reply (.writeRequest id change) o = .ok row' := by
        change deliverSome o.delivery (w.changed id change) = _
        rw [hchanged, hdone]
        rfl
      have hnext : next s (.writeRequest id change) (.ok row') =
          ⟨rest, some id, request.household, compensates change⟩ := by
        change Visit.mk s.queue.tail _ (s.queue.head?.bind _) _ = _
        rw [hqueue]
        rfl
      rw [hafter, hreply, hnext, hclosing, if_pos rfl]
      exact kept_close h hs howed hqueue hchange hfound harrived happly

theorem kept_penalty (h : Kept w st l) (hs : st j = some s) {userId : String} {score : ℚ}
    (hi : Allowed s (.setReputation userId score)) (happlied : o.delivery.applied = true)
    (ho : ∀ household ∈ s.owed, scoreOf w household.id = some household.reputationScore) :
    Kept (w.after (.setReputation userId score) o)
      (Function.update st j (some { s with owed := none })) l := by
  obtain ⟨household, howed, rfl, rfl⟩ := hi
  rw [World.after, World.update, if_pos happlied]
  exact kept_lower h hs howed (ho household howed)

theorem kept_transfer (h : Kept w st l) (hs : st j = some s) {account wallet : String} {amount : ℚ}
    (hi : Allowed s (.compensate account wallet amount)) :
    Kept (w.after (.compensate account wallet amount) o)
      (Function.update st j (some { s with rewards := false }))
      (l.after none (if o.delivery.applied then s.closed else none)) := by
  obtain ⟨howed, hrewards⟩ := hi
  unfold World.after World.update
  split
  · exact kept_compensate h hs hrewards _
  · rw [after_none]
    refine kept_quiet h ?_ ?_ (.inl rfl)
    · rintro t ht
      cases ht
      exact h.queue j s hs
    · rw [view_eq hs]
      rfl

theorem kept_beside (h : Kept w st l) {d : Beside} (hd : beside w d = some w') : Kept w' st l := by
  cases d with
  | pass ms =>
    cases hd
    exact kept_world h h.ids (fun row hrow => ⟨row, hrow, rfl⟩) rfl fun x row hrow =>
      ⟨row, hrow, rfl, fun h => h⟩
  | complete id batchId weights =>
    cases hd
    unfold World.completeRequest
    split
    · cases hfilter : (w.findRequest id).filter fun row => canVerifyPin row.status with
      | none => exact h
      | some row =>
        obtain ⟨hfound, hverify⟩ := Option.filter_eq_some_iff.mp hfilter
        refine kept_set h hfound rfl rfl fun hunattended => ?_
        rw [hunattended] at hverify
        cases hverify
    · exact h

/-- The programs keep to the protocol, and the ledger to the tables. -/
structure Inv (svc : Service) (c : Audited) : Prop where
  ends : (system svc).Ends (fun t _ => t.owed = none) c.door
  kept : Kept c.door.world (stages c.door) c.ledger

theorem kept_call {c : Audited}
    {f : Except Failure (Reply i) →
      Prog Op (fun i => Except Failure (Reply i)) (Except Failure Result)}
    (h : Kept c.door.world (stages c.door) c.ledger) (ht : c.door.tasks j = some ⟨s, .call i f⟩)
    (hi : Allowed s i) (ho : Orderly c (.advance j o)) :
    Kept (c.door.world.after i o)
      (Function.update (stages c.door) j (some (next s i (c.door.world.reply i o))))
      (c.ledger.after (closes c.door (.advance j o)) (pays c.door (.advance j o))) := by
  have hs := stages_eq ht
  have hpending := pending_eq ht
  have hcloses : closes c.door (.advance j o) =
      if o.delivery.applied then closing c.door.world i else none := by
    rw [closes, hpending, Option.bind_some]
  have hpays : pays c.door (.advance j o) = if o.delivery.applied then paying
    (some s) i else none := by
    rw [pays, hpending, hs, Option.bind_some]
  rw [hcloses, hpays]
  simp only [Orderly, hpending, hs, Option.bind_some, Option.any_some] at ho
  obtain ⟨hwrites, hlowers⟩ := ho
  cases i with
  | writeRequest id change =>
    change Kept _ _ (c.ledger.after _ (if _ then none else none))
    rw [ite_self]
    exact kept_write h hs hi (hwrites id rfl)
  | setReputation userId score =>
    change Kept _ _ (c.ledger.after (if _ then none else none) (if _ then none else none))
    rw [ite_self, ite_self, after_none]
    exact kept_penalty h hs hi (hlowers rfl).1 (hlowers rfl).2
  | compensate account wallet amount =>
    change Kept _ _ (c.ledger.after (if _ then none else none) _)
    rw [ite_self]
    exact kept_transfer h hs hi
  | clock | findParties | findWaiting | findVault | emit =>
    change Kept _ _ (c.ledger.after (if _ then none else none) (if _ then none else none))
    rw [ite_self, ite_self, after_none]
    exact kept_read h hs rfl
  | _ => exact False.elim hi

theorem step_inv {c c' : Audited} {e : DoorEvent} (h : Inv svc c) (ho : Orderly c e)
    (hstep : audit svc c e = some c') : Inv svc c' := by
  obtain ⟨door, hdoor, rfl⟩ := Option.map_eq_some_iff.mp hstep
  refine ⟨step_ends (keeps_reporter svc) h.ends hdoor, ?_⟩
  dsimp only
  cases e with
  | start j a =>
    obtain ⟨hj, rfl⟩ := step_start.mp hdoor
    rw [stages_update]
    change Kept _ _ (c.ledger.after none none)
    rw [after_none]
    refine kept_quiet h.kept ?_ ?_ (.inl rfl)
    · rintro t ht
      cases ht
      exact fun entry hentry => absurd hentry List.not_mem_nil
    · rw [view, stages, hj]
      rfl
  | advance j o =>
    obtain ⟨s, i, f, ht, rfl⟩ := step_advance.mp hdoor
    rw [stages_update]
    exact kept_call h.kept ht (h.ends j _ ht).1 ho
  | stop j =>
    obtain ⟨-, rfl⟩ := step_stop.mp hdoor
    rw [stages_update]
    change Kept _ _ (c.ledger.after none none)
    rw [after_none]
    refine kept_quiet h.kept (fun t ht => by cases ht) ?_ (.inl rfl)
    have hnone : (stages c.door j).bind Visit.owed = none := ho
    rw [view]
    cases hs : stages c.door j with
    | none => rfl
    | some s =>
      rw [hs, Option.bind_some] at hnone
      rw [Option.bind_some, Visit.owedTo, hnone]
      rfl
  | outside d =>
    obtain ⟨w, hw, rfl⟩ := step_outside.mp hdoor
    change Kept w _ (c.ledger.after none none)
    rw [after_none]
    exact kept_beside h.kept hw

/-! #### What the ledger counts -/

theorem closing_iff {id x : String} {change : Change} (hchange : unattends change = true) :
    (∃ row ∈ closing w (.writeRequest id change), row.id = x) ↔
      statusOf w x ≠ some .unattended ∧ statusOf (w.writeRequest id change) x =
        some .unattended := by
  rw [World.writeRequest, closing]
  cases hfound : w.findRequest id with
  | none =>
    have hchanged : w.changed id change = none := by rw [World.changed, hfound]; rfl
    rw [hchanged]
    refine iff_of_false ?_ fun h => h.1 h.2
    rintro ⟨row, hrow, -⟩
    cases hrow
  | some row =>
    obtain ⟨row', happly, hunattended, hid, -⟩ := unattended_apply hchange w.now row
    have hchanged : w.changed id change = some row' := by rw [World.changed, hfound]; exact happly
    have hrow := id_of_findRequest hfound
    rw [hchanged]
    simp only [statusOf, findRequest_set hfound hid]
    by_cases hx : x = id
    · subst hx
      rw [if_pos rfl, Option.map_some, hunattended, hfound, Option.map_some]
      constructor
      · rintro ⟨r, hr, -⟩
        obtain ⟨hr, hguard⟩ := Option.filter_eq_some_iff.mp hr
        cases hr
        simp only [Bool.and_eq_true, bne_iff_ne] at hguard
        exact ⟨fun h => hguard.2 (Option.some.inj h), rfl⟩
      · rintro ⟨hne, -⟩
        refine ⟨row, Option.filter_eq_some_iff.mpr ⟨rfl, ?_⟩, hrow⟩
        simp only [Bool.and_eq_true, bne_iff_ne]
        exact ⟨hchange, fun h => hne (congrArg some h)⟩
    · rw [if_neg hx]
      refine iff_of_false ?_ fun h => h.1 h.2
      rintro ⟨r, hr, hrx⟩
      obtain ⟨hr, -⟩ := Option.filter_eq_some_iff.mp hr
      cases hr
      exact hx (hrx.symm.trans hrow)

theorem unattended_completeRequest {x : String} (id : String) (targetBatchId : Option String)
    (actualWeights : NumberRecord)
    (h : statusOf (w.completeRequest id targetBatchId actualWeights) x = some .unattended) :
    statusOf w x = some .unattended := by
  unfold World.completeRequest at h
  split at h
  · split at h
    · rename_i row hfilter
      obtain ⟨hfound, -⟩ := Option.filter_eq_some_iff.mp hfilter
      simp only [statusOf] at h ⊢
      rw [findRequest_set hfound] at h
      · split at h
        · cases h
        · exact h
      · rfl
    · exact h
  · exact h

theorem closes_iff {c c' : Door} {e : DoorEvent} {x : String}
    (hends : (system svc).Ends (fun t _ => t.owed = none) c)
    (hstep : (system svc).step c e = some c') :
    (∃ row ∈ closes c e, row.id = x) ↔
      statusOf c.world x ≠ some .unattended ∧ statusOf c'.world x = some .unattended := by
  have hnone : ∀ {w : World}, closes c e = none →
      (statusOf w x = some .unattended → statusOf c.world x = some .unattended) →
        ((∃ row ∈ closes c e, row.id = x) ↔
          statusOf c.world x ≠ some .unattended ∧ statusOf w x = some .unattended) := by
    intro w hcloses hw
    rw [hcloses]
    refine iff_of_false ?_ fun h => h.1 (hw h.2)
    rintro ⟨row, hrow, -⟩
    cases hrow
  cases e with
  | start j a =>
    obtain ⟨-, rfl⟩ := step_start.mp hstep
    exact hnone rfl fun h => h
  | stop j =>
    obtain ⟨-, rfl⟩ := step_stop.mp hstep
    exact hnone rfl fun h => h
  | outside d =>
    obtain ⟨w, hw, rfl⟩ := step_outside.mp hstep
    cases d with
    | pass ms => cases hw; exact hnone rfl fun h => h
    | complete id batchId weights =>
      cases hw; exact hnone rfl (unattended_completeRequest id batchId weights)
  | advance j o =>
    obtain ⟨s, i, f, ht, rfl⟩ := step_advance.mp hstep
    have hcloses : closes c (.advance j o) =
        if o.delivery.applied then closing c.world i else none := by
      rw [closes, pending_eq ht, Option.bind_some]
    change _ ↔ _ ∧ statusOf (c.world.after i o) x = _
    have hallowed : Allowed s i := (hends j _ ht).1
    cases i with
    | writeRequest id change =>
      unfold World.after World.update
      cases happlied : o.delivery.applied with
      | false =>
        rw [happlied] at hcloses
        exact hnone hcloses fun h => h
      | true =>
        rw [hcloses, happlied]
        exact closing_iff hallowed.2.1
    | setReputation userId score =>
      refine hnone (hcloses.trans (ite_self _)) fun h => ?_
      unfold World.after World.update at h
      split at h <;> exact h
    | compensate account wallet amount =>
      refine hnone (hcloses.trans (ite_self _)) fun h => ?_
      unfold World.after World.update at h
      split at h <;> exact h
    | clock | findParties | findWaiting | findVault | emit =>
      rw [after_quiet rfl]
      exact hnone (hcloses.trans (ite_self _)) fun h => h
    | _ => exact False.elim hallowed

theorem pending_of_owed {c : Audited} (h : Inv svc c) {u : String}
    (howed : view Visit.owedTo (stages c.door) j = some u) :
    ∃ score, pending c.door j = some (.setReputation u score) := by
  obtain ⟨s, hs, hu⟩ := view_some.mp howed
  obtain ⟨household, hhousehold, rfl⟩ := Option.map_eq_some_iff.mp hu
  obtain ⟨t, ht, rfl⟩ := Option.map_eq_some_iff.mp hs
  obtain ⟨s, _ | ⟨i, f⟩⟩ := t
  · have hend : s.owed = none := h.ends j _ ht
    rw [hend] at hhousehold
    cases hhousehold
  · have hallowed : Allowed s i := (h.ends j _ ht).1
    cases i with
    | setReputation userId score =>
      obtain ⟨household', howed', rfl, -⟩ := hallowed
      cases hhousehold.symm.trans howed'
      exact ⟨score, pending_eq ht⟩
    | writeRequest | compensate =>
      have hnone := hallowed.1
      rw [hhousehold] at hnone
      cases hnone
    | clock | findParties | findWaiting | findVault | emit =>
      have hnone : s.owed = none := hallowed
      rw [hhousehold] at hnone
      cases hnone
    | _ => exact False.elim hallowed

theorem fair_of_inv {c : Audited} (h : Inv svc c) : Fair c := by
  refine ⟨fun x => ?_, h.kept.paid, fun x => h.kept.untouched, fun u hu => ?_⟩
  · rcases h.kept.once x with hzero | ⟨hone, -⟩
    · omega
    · exact hone.le
  · obtain ⟨owers, hholders, hdue⟩ := h.kept.owed
    have hempty : owers u = ∅ := by
      refine Finset.eq_empty_of_forall_notMem fun j hj => ?_
      obtain ⟨score, hpending⟩ := pending_of_owed h ((hholders u j).mp hj)
      exact hu j score hpending
    rw [hdue, hempty, Finset.card_empty, Function.iterate_zero, Option.map_id_fun, id]

/-- No two requests have one id, and the household of every request is in the table of the users. -/
structure Keyed (w : World) : Prop where
  ids : (w.requests.map Request.id).Nodup
  homes : ∀ row ∈ w.requests, (w.findUser row.householdId).isSome

theorem inv_opened (hw : Keyed w) : Inv svc (opened w) := by
  refine ⟨fun j t ht => ?_, ⟨hw.ids, hw.homes, fun j s hs => ?_, fun x => .inl rfl, fun x => le_rfl,
    fun j x hx => ?_, fun i j x hx => ?_, fun _ => ∅, fun x j => ?_, fun u => ?_⟩⟩
  · cases ht
  · cases hs
  · cases hx
  · cases hx
  · exact iff_of_false (Finset.notMem_empty j) fun h => by cases h
  · change scoreOf w u = (scoreOf w u).map lowered^[(∅ : Finset ℕ).card]
    rw [Finset.card_empty, Function.iterate_zero, Option.map_id_fun, id]

/-- Along a run in which whatever becomes UNATTENDED still is ARRIVED when it is written, and the
score that is lowered for it is written as it was read, everything is fair in every state. -/
theorem no_show_fair (svc : Service) {c : Audited} {es : List DoorEvent} (hw : Keyed w)
    (hC : Along (audit svc) Orderly (opened w) es) (hrun : run (audit svc) (opened w) es = some c) :
    Fair c :=
  fair_of_inv (run_invariant (fun _ _ _ h ho hstep => step_inv h ho hstep) (inv_opened hw) hC hrun)

/-! ### One request and two reports -/

/-- The collector stands at the door for an hour; the household has a vault and he a wallet. -/
def doorWorld : World :=
  let w := sampleWorld [{ sampleRow with
    status := .arrived, collectorId := some "first", arrivedAt := some 0 }] []
  { w with around := { w.around with
    users := [⟨"household", .approved, none, 5⟩, ⟨"first", .approved, some "wallet", 5⟩]
    vaults := fun _ => some "vault" } }

theorem keyed_doorWorld : Keyed doorWorld := by
  refine ⟨by decide, fun row hrow => ?_⟩
  obtain rfl := List.mem_singleton.mp hrow
  decide

def report (j : ℕ) : DoorEvent := .start j (.reportNoShow "request" "first")

/-- The next `n` calls of a program are answered. -/
def calls (j n : ℕ) : List DoorEvent := List.replicate n (.advance j answer)

def reported : List DoorEvent := report 0 :: calls 0 7 ++ [.outside (.complete "request" none [])]

theorem no_show_fair_reported : ∃ c, Fair c ∧ c.ledger.closings "request" = 1 ∧
    c.ledger.transfers "request" = 1 ∧ scoreOf c.door.world "household" = some (9 / 2) := by
  have hrun : (run (audit sampleService) (opened doorWorld) reported).any (fun c =>
      decide (c.ledger.closings "request" = 1 ∧ c.ledger.transfers "request" = 1 ∧
        scoreOf c.door.world "household" = some (9 / 2))) = true := by decide +kernel
  obtain ⟨c, hc, htest⟩ := (Option.any_eq_true _ _).mp hrun
  exact ⟨c, no_show_fair sampleService keyed_doorWorld (by decide +kernel) hc,
    of_decide_eq_true htest⟩

/-- The collector reports twice at once: both reports have found the request ARRIVED. -/
def reportedTwice : List DoorEvent := report 0 :: report 1 :: calls 0 2 ++ calls 1 7 ++ calls 0 5

theorem compensated_twice :
    ∃ c, run (audit sampleService) (opened doorWorld) reportedTwice = some c ∧
    c.ledger.closings "request" = 1 ∧ c.ledger.transfers "request" = 2 ∧ ¬Fair c := by
  have hrun : (run (audit sampleService) (opened doorWorld) reportedTwice).any (fun c =>
      decide (c.ledger.closings "request" = 1 ∧ c.ledger.transfers "request" = 2)) = true := by
    decide +kernel
  obtain ⟨c, hc, htest⟩ := (Option.any_eq_true _ _).mp hrun
  obtain ⟨hone, htwo⟩ := of_decide_eq_true htest
  refine ⟨c, hc, hone, htwo, fun hfair => ?_⟩
  have hpaid := hfair.paid "request"
  omega

end Livora.NoShows
