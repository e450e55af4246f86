import Livora.CollectionRatings
import Livora.ProgramPools
import Livora.PromisedJobs

/-! Ratings of the requests of one database, in any order of their calls. A request's rating is
taken in once, and a collector has as many ratings as requests that were rated, along every run in
which each write finds its row as it was read and no rating is given up between its two writes. -/

namespace Livora.RatingRaces

open TransitionRuns EffectPrograms EffectPrograms.Action ProgramPools ProgramPools.System KeyedRows
open CollectionRatings
open PinVerification (Delivery truthy)
open StoreBooks (Failure)

/-! ### Stages -/

structure Stage where
  found : Option (String × Request)
  /-- The request that was rated, and the collector whose average has not taken it in. -/
  owing : Option (String × String)
  collector : Option Collector

def Stage.first : Stage := ⟨none, none, none⟩

def Allowed (s : Stage) : Op → Prop
  | .findRequest _ => s.found = none ∧ s.owing = none
  | .rate id _ _ => s.owing = none ∧ s.collector = none ∧
      ∃ row, s.found = some (id, row) ∧ row.status = .completed
  | .findCollector collectorId => s.collector = none ∧ ∃ id, s.owing = some (id, collectorId)
  | .updateCollector requestId collectorId _ totalRatings _ => ∃ owed collector,
      s.owing = some (requestId, owed) ∧ s.collector = some collector ∧
        collectorId = collector.id ∧ totalRatings = collector.totalRatings + 1

def owedBy (found : Option (String × Request)) (updated : Request) : Option (String × String) :=
  found.bind fun request => (truthy request.2.collectorId).map fun collectorId =>
    (updated.id, collectorId)

def next (s : Stage) (i : Op) (r : Except Failure (Reply i)) : Stage :=
  match i, r with
  | .findRequest id, .ok row => { s with found := row.map fun row => (id, row) }
  | .rate _ _ _, .ok updated => { s with owing := owedBy s.found updated }
  | .findCollector _, .ok none => { s with owing := none }
  | .findCollector _, .ok (some collector) => { s with collector := some collector }
  | .updateCollector _ _ _ _ _, _ => { s with owing := none }
  | _, _ => s

def protocol : Protocol Stage Op fun i => Except Failure (Reply i) where
  Allowed := Allowed
  next := next

structure Caller where
  householdUserId : String
  id : String
  dto : RateCollectionDto

def program (caller : Caller) : Work RatingResult :=
  rateCollectionRequest caller.householdUserId caller.id caller.dto

section Programs

variable {s : Stage}

theorem follows_averageOf {updated : Request} {rating : ℕ} {collectorId : Option String}
    (hcollector : s.collector = none)
    (howing : s.owing = (truthy collectorId).map fun collectorId => (updated.id, collectorId)) :
    Follows protocol s (averageOf updated rating collectorId) := by
  unfold averageOf
  cases htext : truthy collectorId with
  | none => exact follows_pure _
  | some collectorId =>
    rw [htext] at howing
    refine follows_call ⟨hcollector, updated.id, howing⟩ fun found => ?_
    cases found with
    | none => exact follows_pure _
    | some collector =>
      exact follows_call ⟨collectorId, collector, howing, rfl, rfl, rfl⟩ fun _ => follows_pure _

theorem follows_program (caller : Caller) : Follows protocol .first (program caller) := by
  refine follows_call ⟨rfl, rfl⟩ fun found => ?_
  cases found with
  | none => exact follows_throw _
  | some request =>
    change Follows protocol ⟨some (caller.id, request), none, none⟩ (if _ then _ else _)
    split
    · exact follows_throw _
    · split
      · exact follows_throw _
      · rename_i hcompleted
        split
        · exact follows_throw _
        · refine follows_call ⟨rfl, rfl, request, rfl, not_not.mp hcompleted⟩ fun updated => ?_
          refine follows_averageOf rfl ?_
          cases htext : truthy request.collectorId with
          | none => simp [protocol, next, owedBy, htext]
          | some collectorId => simp [protocol, next, owedBy, htext]

end Programs

/-! ### The system -/

inductive Outside where
  /-- A request is made, or changed before it is completed. -/
  | request (row : Request)
  | collector (row : Collector)

def outside (w : World) : Outside → Option World
  | .request row =>
    if row.rating = none ∧ ((w.findRequest row.id).all fun old => old.status != .completed) =
      true then
      some { w with requests := upsert Request.id w.requests row }
    else none
  | .collector row =>
    match w.findCollector row.id with
    | some old =>
      if row.totalRatings = old.totalRatings then
        some { w with collectors := upsert Collector.id w.collectors row }
      else none
    | none =>
      if row.id ≠ "" ∧ row.totalRatings = 0 ∧
          ∀ request ∈ w.requests, request.collectorId ≠ some row.id then
        some { w with collectors := upsert Collector.id w.collectors row }
      else none

def system : System Caller World Delivery Outside Stage Op (fun i => Except Failure (Reply i))
    (Except Failure RatingResult) where
  program caller := (program caller).run
  serve := World.serve
  outside := outside
  protocol := protocol
  first := .first

abbrev Race := Pool World
  (Task Stage Op (fun i => Except Failure (Reply i)) (Except Failure RatingResult))

abbrev RaceEvent := Event Caller Delivery Outside

def quiescent (w : World) : Race := ⟨w, fun _ => none⟩

/-! ### Ratings and averages -/

/-- A completed request of the collector that has a rating. -/
def rates (collectorId : String) (row : Request) : Bool :=
  row.collectorId == some collectorId && row.status == .completed && row.rating.isSome

def ratedCount (w : World) (collectorId : String) : ℕ :=
  (w.requests.filter (rates collectorId)).length

def rated (w : World) (collectorId : String) : Set String :=
  {id | ∃ row, w.findRequest id = some row ∧ rates collectorId row = true}

def owed (st : ℕ → Option Stage) (j : ℕ) : Option (String × String) := (st j).bind Stage.owing

/-- The programs whose rating the collector's average has not taken in. -/
def owers (st : ℕ → Option Stage) (collectorId : String) : Set ℕ :=
  {j | ∃ id, owed st j = some (id, collectorId)}

structure Sound (w : World) : Prop where
  requests : (w.requests.map Request.id).Nodup
  collectors : (w.collectors.map Collector.id).Nodup
  named : ∀ row ∈ w.collectors, row.id ≠ ""
  once : w.contributions.Nodup
  contributed : ∀ id ∈ w.contributions, ∃ row, w.findRequest id = some row ∧
    row.status = .completed ∧ row.rating ≠ none

structure Knows (w : World) (s : Stage) : Prop where
  found : ∀ id row, s.found = some (id, row) → row.status = .completed →
    ∃ now, w.findRequest id = some now ∧ now.status = .completed ∧ now.collectorId = row.collectorId
  owing : ∀ id collectorId, s.owing = some (id, collectorId) →
    id ∈ rated w collectorId ∧ id ∉ w.contributions ∧ collectorId ≠ ""
  collector : ∀ id collectorId row, s.owing = some (id, collectorId) → s.collector = some row →
    row.id = collectorId

structure Kept (w : World) (st : ℕ → Option Stage) : Prop where
  sound : Sound w
  knows : ∀ j s, st j = some s → Knows w s
  apart : ∀ i j id c c', owed st i = some (id, c) → owed st j = some (id, c') → i = j
  totals : ∀ row ∈ w.collectors,
    (row.totalRatings : ℕ∞) + (owers st row.id).encard = (rated w row.id).encard

variable {w w' : World} {st : ℕ → Option Stage} {i : Op} {d : Delivery} {s s' : Stage} {j : ℕ}

theorem owed_update {t : Option Stage} :
    owed (Function.update st j t) = Function.update (owed st) j (t.bind Stage.owing) := by
  funext k
  by_cases hk : k = j
  · subst hk
    simp [owed]
  · simp [owed, hk]

theorem owed_keep (hj : (st j).bind Stage.owing = s'.owing) :
    owed (Function.update st j (some s')) = owed st := by
  rw [owed_update, Function.update_eq_self_iff]
  exact hj.symm

theorem owers_congr {st' : ℕ → Option Stage} (h : owed st' = owed st) (c : String) :
    owers st' c = owers st c := by
  unfold owers
  rw [h]

theorem owers_take {id c : String} (hj : owed st j = none) (ht : s'.owing = some (id, c))
    (c' : String) :
    owers (Function.update st j (some s')) c' = if c =
      c' then insert j (owers st c') else owers st c' := by
  have howed : owed (Function.update st j (some s')) = Function.update (owed st) j (some (id, c)) :=
    owed_update.trans (congrArg (Function.update (owed st) j) ht)
  ext k
  by_cases hk : k = j
  · subst hk
    split
    · rename_i hc
      simp [owers, howed, hc]
    · rename_i hc
      simp [owers, howed, hj, hc]
  · split <;> simp [owers, howed, hk]

theorem owers_release {t : Option Stage} {id c : String} (hj : owed st j = some (id, c))
    (ht : t.bind Stage.owing = none) (c' : String) :
    owers (Function.update st j t) c' = if c = c' then owers st c' \ {j} else owers st c' := by
  ext k
  by_cases hk : k = j
  · subst hk
    split
    · simp [owers, owed_update, ht]
    · rename_i hc
      simp [owers, owed_update, ht, hj, hc]
  · split <;> simp [owers, owed_update, hk]

/-- No two programs owe the rating of one request. -/
def Apart (st : ℕ → Option Stage) : Prop :=
  ∀ i j id c c', owed st i = some (id, c) → owed st j = some (id, c') → i = j

theorem apart_take {id c : String} (h : Apart st) (hfree : ∀ k c, owed st k ≠ some (id, c))
    (ht : s'.owing = some (id, c)) : Apart (Function.update st j (some s')) := by
  have howed : owed (Function.update st j (some s')) = Function.update (owed st) j (some (id, c)) :=
    owed_update.trans (congrArg (Function.update (owed st) j) ht)
  intro a b k c' c'' ha hb
  rw [howed] at ha hb
  by_cases haj : a = j <;> by_cases hbj : b = j
  · exact haj.trans hbj.symm
  · subst haj
    rw [Function.update_self] at ha
    rw [Function.update_of_ne hbj] at hb
    cases ha
    exact absurd hb (hfree b c'')
  · subst hbj
    rw [Function.update_self] at hb
    rw [Function.update_of_ne haj] at ha
    cases hb
    exact absurd ha (hfree a c')
  · rw [Function.update_of_ne haj] at ha
    rw [Function.update_of_ne hbj] at hb
    exact h a b k c' c'' ha hb

theorem apart_release {t : Option Stage} (h : Apart st) (ht : t.bind Stage.owing = none) :
    Apart (Function.update st j t) := by
  intro a b id c c' ha hb
  rw [owed_update, ht] at ha hb
  exact h a b id c c' (PromisedJobs.owes_of_release ha).2 (PromisedJobs.owes_of_release hb).2

theorem encard_rated (h : Sound w) (c : String) : (rated w c).encard = ratedCount w c :=
  (length_filter h.requests (rates c)).symm

theorem mem_rated {c id : String} : id ∈ rated w c ↔ ∃ row, w.findRequest id = some row ∧
    row.collectorId = some c ∧ row.status = .completed ∧ row.rating.isSome = true := by
  simp [rated, rates, and_assoc]

/-- The completed requests are found as they were, whatever their ratings. -/
def Lasting (w w' : World) : Prop :=
  ∀ id row, w.findRequest id = some row → row.status = .completed →
  ∃ now, w'.findRequest id = some now ∧ now.status = .completed ∧ now.collectorId = row.collectorId

theorem Knows.found_later (h : Knows w s) (hlasting : Lasting w w') (id : String) (row : Request)
    (hfound : s.found = some (id, row)) (hcompleted : row.status = .completed) :
    ∃ now, w'.findRequest id = some now ∧ now.status = .completed ∧
      now.collectorId = row.collectorId := by
  obtain ⟨now, hnow, hstatus, hcollector⟩ := h.found id row hfound hcompleted
  obtain ⟨later, hlater, hstatus', hcollector'⟩ := hlasting id now hnow hstatus
  exact ⟨later, hlater, hstatus', hcollector'.trans hcollector⟩

theorem Knows.mono (h : Knows w s) (hlasting : Lasting w w') (hrated : ∀ c, rated w c ⊆ rated w' c)
    (hcontributions : ∀ id c, s.owing = some (id, c) → id ∉ w'.contributions) : Knows w' s where
  found := h.found_later hlasting
  owing id c howing := by
    obtain ⟨hmem, -, hne⟩ := h.owing id c howing
    exact ⟨hrated c hmem, hcontributions id c howing, hne⟩
  collector := h.collector

theorem lasting_refl (w : World) : Lasting w w := fun _ row h hstatus => ⟨row, h, hstatus, rfl⟩

theorem knows_update {w' : World} (h : ∀ k t, k ≠ j → st k = some t → Knows w' t) {t : Option Stage}
    (ht : ∀ s, t = some s → Knows w' s) : ∀ k s, Function.update st j t k = some s →
      Knows w' s := by
  intro k s hk
  by_cases hkj : k = j
  · subst hkj
    rw [Function.update_self] at hk
    exact ht s hk
  · rw [Function.update_of_ne hkj] at hk
    exact h k s hkj hk

theorem knows_first (w : World) : Knows w .first :=
  ⟨fun _ _ h => (by cases h), fun _ _ h => (by cases h), fun _ _ _ h => (by cases h)⟩

theorem Kept.stage (h : Kept w st) (hs : Knows w s') (howing : (st j).bind Stage.owing = s'.owing) :
    Kept w (Function.update st j (some s')) where
  sound := h.sound
  knows := knows_update (fun k t _ ht => h.knows k t ht) fun s hs' => by
    cases hs'
    exact hs
  apart := by
    rw [owed_keep howing]
    exact h.apart
  totals row hrow := by
    rw [owers_congr (owed_keep howing)]
    exact h.totals row hrow

theorem Kept.release (h : Kept w st) {t : Option Stage} (ht : ∀ s, t = some s → Knows w s)
    (hnone : t.bind Stage.owing = none)
    (howed : ∀ id c, owed st j = some (id, c) → ∀ row ∈ w.collectors, row.id ≠ c) :
    Kept w (Function.update st j t) where
  sound := h.sound
  knows := knows_update (fun k t _ ht => h.knows k t ht) ht
  apart := apart_release h.apart hnone
  totals row hrow := by
    have hsame : owers (Function.update st j t) row.id = owers st row.id := by
      cases hj : owed st j with
      | none => exact owers_congr (by rw [owed_update, hnone, ← hj, Function.update_eq_self]) row.id
      | some owes => rw [owers_release hj hnone, if_neg (howed owes.1 owes.2 hj row hrow).symm]
    rw [hsame]
    exact h.totals row hrow

/-! ### One call -/

/-- The write finds its row as it was read, and goes through. -/
def Firm (w : World) (d : Delivery) : Op → Prop
  | .rate id _ _ =>
    d.applied = true → d = .done ∧ ∀ row, w.findRequest id = some row → row.rating = none
  | .findCollector _ => d = .done
  | .updateCollector _ collectorId _ totalRatings _ => d.applied = true ∧
      ∀ row, w.findCollector collectorId = some row → totalRatings = row.totalRatings + 1
  | _ => True

/-- Every write finds its row as it was read, and no call ends between its two writes. -/
def Firmly (c : Race) : RaceEvent → Prop
  | .advance j d => ∀ i, pending c j = some i → Firm c.world d i
  | .stop j => owed (stages c) j = none
  | _ => True

theorem call_findRequest (h : Kept w st) (hj : st j = some s) {id : String}
    (hallowed : Allowed s (.findRequest id)) :
    Kept (w.after (.findRequest id) d)
      (Function.update st j (some (next s (.findRequest id) (w.reply (.findRequest id) d)))) := by
  have hafter : w.after (.findRequest id) d = w := by
    unfold World.after
    split <;> rfl
  rw [hafter]
  cases hreply : w.reply (.findRequest id) d with
  | error e => exact h.stage (h.knows j s hj) (by rw [hj]; rfl)
  | ok row =>
    refine h.stage ⟨fun id' row' hfound hcompleted => ?_, ?_, ?_⟩ (by rw [hj]; rfl)
    · obtain ⟨-, hrow⟩ := Delivery.answer_ok hreply
      cases row with
      | none => cases hfound
      | some row =>
        cases hfound
        exact ⟨_, hrow, hcompleted, rfl⟩
    · exact fun id' c howing => absurd (hallowed.2.symm.trans howing) (by simp)
    · exact fun id' c row' howing => absurd (hallowed.2.symm.trans howing) (by simp)

theorem call_findCollector (h : Kept w st) (hj : st j = some s) {c : String}
    (hallowed : Allowed s (.findCollector c)) (hfirm : Firm w d (.findCollector c)) :
    Kept (w.after (.findCollector c) d)
      (Function.update st j (some (next s (.findCollector c) (w.reply (.findCollector c) d)))) := by
  obtain ⟨hcollector, id, howing⟩ := hallowed
  have hafter : w.after (.findCollector c) d = w := by
    unfold World.after
    split <;> rfl
  have hreply : w.reply (.findCollector c) d = .ok (w.findCollector c) := by
    rw [show d = .done from hfirm]
    rfl
  have hknows := h.knows j s hj
  rw [hafter, hreply]
  cases hfound : w.findCollector c with
  | none =>
    refine h.release (fun s' hs' => ?_) rfl fun id' c' howed row hrow => ?_
    · cases hs'
      exact ⟨hknows.found, fun _ _ he => (by cases he), fun _ _ _ he => (by cases he)⟩
    · rw [owed, hj] at howed
      have hpair := Option.some.inj (howing.symm.trans howed)
      rw [← (Prod.mk.inj hpair).2]
      exact lookup_eq_none.mp hfound row hrow
  | some row =>
    refine h.stage ⟨hknows.found, hknows.owing, fun id' c' row' howing' hrow' => ?_⟩
      (by rw [hj]; rfl)
    cases hrow'
    rw [key_of_lookup hfound]
    exact (Prod.mk.inj (Option.some.inj (howing.symm.trans howing'))).2

theorem id_ratedAs (id : String) (rating : ℕ) (feedback : Option String) (row : Request) :
    (World.ratedAs id rating feedback row).id = row.id := by
  unfold World.ratedAs
  split <;> rfl

theorem id_averagedAs (c : String) (reputationScore : ℚ) (totalRatings : ℕ) (requiresQa : Bool)
    (row : Collector) :
    (World.averagedAs c reputationScore totalRatings requiresQa row).id = row.id := by
  unfold World.averagedAs
  split <;> rfl

section Rating

variable {id : String} {rating : ℕ} {feedback : Option String}

theorem findRequest_rate (k : String) : (w.effect (.rate id rating feedback)).findRequest k =
    (w.findRequest k).map (World.ratedAs id rating feedback) :=
  lookup_map (id_ratedAs id rating feedback)

theorem lasting_rate : Lasting w (w.effect (.rate id rating feedback)) := by
  intro k row hrow hstatus
  refine ⟨World.ratedAs id rating feedback row, ?_, ?_⟩
  · rw [findRequest_rate, hrow]
    rfl
  · unfold World.ratedAs
    split <;> exact ⟨hstatus, rfl⟩

theorem rated_rate {now : Request} (hnow : w.findRequest id = some now)
    (hstatus : now.status = .completed)
    (c : String) : rated (w.effect (.rate id rating feedback)) c =
      if now.collectorId = some c then insert id (rated w c) else rated w c := by
  ext k
  rw [mem_rated, findRequest_rate]
  by_cases hk : k = id
  · subst hk
    have hkey : now.id = k := key_of_lookup hnow
    rw [hnow]
    split <;> simp_all [World.ratedAs, mem_rated]
  · have hother : k ∈ rated (w.effect (.rate id rating feedback)) c ↔ k ∈ rated w c := by
      rw [mem_rated, mem_rated, findRequest_rate]
      cases hrow : w.findRequest k with
      | none => simp
      | some row =>
        have hne : row.id ≠ id := fun he => hk (he ▸ (key_of_lookup hrow).symm)
        simp [World.ratedAs, hne]
    rw [← findRequest_rate, ← mem_rated, hother]
    split
    · rw [Set.mem_insert_iff]
      exact ⟨.inr, fun h => h.resolve_left hk⟩
    · rfl

section Written

variable {now : Request} (hnow : w.findRequest id = some now)

include hnow

theorem subset_rate (hstatus : now.status = .completed) (c : String) :
    rated w c ⊆ rated (w.effect (.rate id rating feedback)) c := by
  rw [rated_rate hnow hstatus]
  split
  · exact Set.subset_insert id _
  · exact subset_rfl

theorem not_mem_rated (hunrated : now.rating = none) (c : String) : id ∉ rated w c := by
  intro hmem
  obtain ⟨old, hold, -, -, hsome⟩ := mem_rated.mp hmem
  cases hnow.symm.trans hold
  rw [hunrated] at hsome
  cases hsome

theorem not_contributed (h : Sound w) (hunrated : now.rating = none) : id ∉ w.contributions := by
  intro hmem
  obtain ⟨old, hold, -, hsome⟩ := h.contributed id hmem
  cases hnow.symm.trans hold
  exact hsome hunrated

theorem not_owed (h : Kept w st) (hunrated : now.rating = none) (k : ℕ) (c : String) :
    owed st k ≠ some (id, c) := by
  intro ho
  obtain ⟨t, ht, ho⟩ := Option.bind_eq_some_iff.mp ho
  exact not_mem_rated hnow hunrated c ((h.knows k t ht).owing id c ho).1

theorem Knows.rate (h : Knows w s) (hstatus : now.status = .completed) :
    Knows (w.effect (.rate id rating feedback)) s :=
  h.mono lasting_rate (subset_rate hnow hstatus) fun id' c ho => (h.owing id' c ho).2.1

omit hnow in
theorem sound_rate (h : Sound w) : Sound (w.effect (.rate id rating feedback)) where
  requests := (keys_map (id_ratedAs id rating feedback)).symm ▸ h.requests
  collectors := h.collectors
  named := h.named
  once := h.once
  contributed k hk := by
    obtain ⟨old, hold, hold', hsome⟩ := h.contributed k hk
    refine ⟨World.ratedAs id rating feedback old, ?_, ?_⟩
    · rw [findRequest_rate, hold]
      rfl
    · unfold World.ratedAs
      split
      · exact ⟨hold', Option.some_ne_none rating⟩
      · exact ⟨hold', hsome⟩

/-- The rating of nobody's work. -/
theorem kept_rate_unnamed (h : Kept w st) (hj : st j = some s) (hstatus : now.status = .completed)
    (howing : s.owing = none) (hnobody : ∀ u ∈ w.collectors, now.collectorId ≠ some u.id) :
    Kept (w.effect (.rate id rating feedback))
    (Function.update st j (some { s with owing := none })) := by
  have hkeep : (st j).bind Stage.owing = none := by
    rw [hj]
    exact howing
  refine ⟨sound_rate h.sound, knows_update (fun k t _ ht => (h.knows k t ht).rate hnow hstatus) fun t ht => ?_,
    ?_, fun u hu => ?_⟩
  · cases ht
    exact ⟨(h.knows j s hj).found_later lasting_rate, fun _ _ he => (by cases he), fun _ _ _ he =>
      (by cases he)⟩
  · rw [owed_keep hkeep]
    exact h.apart
  · rw [owers_congr (owed_keep hkeep), rated_rate hnow hstatus, if_neg (hnobody u hu)]
    exact h.totals u hu

/-- The rating of a collector's work, which his average is to take in. -/
theorem kept_rate_named (h : Kept w st) (hj : st j = some s) (hstatus : now.status = .completed)
    (hunrated : now.rating = none) (howing : s.owing = none) (hnone : s.collector = none)
    {c : String} (hc : now.collectorId = some c) (hne : c ≠ "") :
    Kept (w.effect (.rate id rating feedback))
    (Function.update st j (some { s with owing := some (id, c) })) := by
  have hfree : owed st j = none := by
    rw [owed, hj]
    exact howing
  have hnew : id ∉ w.contributions := not_contributed hnow h.sound hunrated
  refine ⟨sound_rate h.sound, knows_update (fun k t _ ht => (h.knows k t ht).rate hnow hstatus) fun t ht => ?_,
    apart_take h.apart (not_owed hnow h hunrated) rfl, fun u hu => ?_⟩
  · cases ht
    refine ⟨(h.knows j s hj).found_later lasting_rate, fun k c' he => ?_, fun _ _ r _ hr => ?_⟩
    · cases he
      rw [rated_rate hnow hstatus, if_pos hc]
      exact ⟨Set.mem_insert id _, hnew, hne⟩
    · exact absurd (hnone.symm.trans hr) (by simp)
  · rw [owers_take hfree rfl, rated_rate hnow hstatus, hc]
    by_cases hcu : c = u.id
    · subst hcu
      have hnot : j ∉ owers st u.id := by
        rintro ⟨k, hk⟩
        exact absurd (hfree.symm.trans hk) (by simp)
      rw [if_pos rfl, if_pos rfl, Set.encard_insert_of_notMem hnot,
        Set.encard_insert_of_notMem (not_mem_rated hnow hunrated u.id), ← add_assoc, h.totals u hu]
    · rw [if_neg hcu, if_neg fun he => hcu (Option.some.inj he)]
      exact h.totals u hu

end Written

theorem call_rate (h : Kept w st) (hj : st j = some s)
    (hallowed : Allowed s (.rate id rating feedback))
    (hfirm : Firm w d (.rate id rating feedback)) :
    Kept (w.after (.rate id rating feedback) d) (Function.update st j
      (some (next s (.rate id rating feedback) (w.reply (.rate id rating feedback) d)))) := by
  obtain ⟨howing, hnone, row, hfound, hcompleted⟩ := hallowed
  have hknows := h.knows j s hj
  obtain ⟨now, hnow, hstatus, hcollector⟩ := hknows.found id row hfound hcompleted
  by_cases happlied : d.applied = true
  swap
  · have hafter : w.after (.rate id rating feedback) d = w := if_neg happlied
    have hreply : w.reply (.rate id rating feedback) d = .error .outside := by
      have hdone : d ≠ .done := fun he => happlied (he ▸ rfl)
      simp [World.reply, World.updated, hnow, Delivery.answer, hdone]
    rw [hafter, hreply]
    exact h.stage hknows (by rw [hj]; rfl)
  obtain ⟨rfl, hunrated⟩ := hfirm happlied
  have hafter : w.after (.rate id rating feedback) .done = w.effect (.rate id rating feedback) :=
    rfl
  have hreply : w.reply (.rate id rating feedback) .done =
      .ok (World.ratedAs id rating feedback now) := by
    simp [World.reply, World.updated, hnow, Delivery.answer]
  have hid : (World.ratedAs id rating feedback now).id = id :=
    (id_ratedAs ..).trans (key_of_lookup hnow)
  have hnext : next s (.rate id rating feedback) (.ok (World.ratedAs id rating feedback now)) =
      { s with owing := (truthy row.collectorId).map fun c => (id, c) } := by
    simp only [next, owedBy, hfound, hid]
    rfl
  rw [hafter, hreply, hnext]
  cases htext : truthy row.collectorId with
  | none =>
    refine kept_rate_unnamed hnow h hj hstatus howing fun u hu he => ?_
    rw [← hcollector, he] at htext
    simp [truthy, h.sound.named u hu] at htext
  | some c =>
    obtain ⟨hrow, hne⟩ := Option.filter_eq_some_iff.mp htext
    exact kept_rate_named hnow h hj hstatus (hunrated now hnow) howing hnone (hcollector.trans hrow)
      (by simpa using hne)

end Rating

/-! ### Every run -/

section Averages

variable {requestId c : String} {reputationScore : ℚ} {totalRatings : ℕ} {requiresQa : Bool}

theorem findRequest_update (k : String) :
    (w.effect
      (.updateCollector requestId c reputationScore totalRatings requiresQa)).findRequest k =
      w.findRequest k := by
  change World.findRequest (if (w.findCollector c).isSome then _ else w) k = _
  split <;> rfl

theorem rated_update : rated (w.effect (.updateCollector requestId c reputationScore totalRatings
    requiresQa)) = rated w := by
  funext k
  unfold rated
  simp only [findRequest_update]

theorem lasting_update :
    Lasting w (w.effect (.updateCollector requestId c reputationScore totalRatings requiresQa)) :=
  fun k row hrow hstatus => ⟨row, (findRequest_update k).trans hrow, hstatus, rfl⟩

section Found

variable {now : Collector} (hfound : w.findCollector c = some now)

include hfound

theorem requests_update :
    (w.effect (.updateCollector requestId c reputationScore totalRatings requiresQa)).requests =
      w.requests := by
  simp [World.effect, hfound]

theorem collectors_update :
    (w.effect (.updateCollector requestId c reputationScore totalRatings requiresQa)).collectors =
      w.collectors.map (World.averagedAs c reputationScore totalRatings requiresQa) := by
  simp [World.effect, hfound]

theorem contributions_update :
    (w.effect
      (.updateCollector requestId c reputationScore totalRatings requiresQa)).contributions =
      w.contributions ++ [requestId] := by
  simp [World.effect, hfound]

theorem sound_update (h : Sound w) (hmem : requestId ∈ rated w c)
    (hnot : requestId ∉ w.contributions) :
    Sound (w.effect (.updateCollector requestId c reputationScore totalRatings requiresQa)) where
  requests := by
    rw [requests_update hfound]
    exact h.requests
  collectors := by
    rw [collectors_update hfound, keys_map (id_averagedAs _ _ _ _)]
    exact h.collectors
  named row hrow := by
    rw [collectors_update hfound] at hrow
    obtain ⟨old, hold, rfl⟩ := List.mem_map.mp hrow
    rw [id_averagedAs]
    exact h.named old hold
  once := by
    rw [contributions_update hfound]
    exact List.nodup_append.mpr ⟨h.once, List.nodup_singleton _, fun a ha b hb he =>
      hnot (List.mem_singleton.mp hb ▸ he ▸ ha)⟩
  contributed k hk := by
    rw [contributions_update hfound] at hk
    rw [findRequest_update]
    rcases List.mem_append.mp hk with hk | hk
    · exact h.contributed k hk
    · obtain ⟨row, hrow, -, hstatus, hsome⟩ := mem_rated.mp hmem
      exact ⟨row, List.mem_singleton.mp hk ▸ hrow, hstatus, Option.isSome_iff_ne_none.mp hsome⟩

theorem Knows.update (h : Knows w s) (hother : ∀ c', s.owing ≠ some (requestId, c')) :
    Knows (w.effect (.updateCollector requestId c reputationScore totalRatings requiresQa)) s := by
  refine h.mono lasting_update (fun x => by rw [rated_update]) fun id' c' ho hmem => ?_
  rw [contributions_update hfound] at hmem
  rcases List.mem_append.mp hmem with hmem | hmem
  · exact (h.owing id' c' ho).2.1 hmem
  · obtain rfl := List.mem_singleton.mp hmem
    exact hother c' ho

theorem totals_update (h : Kept w st) (howed : owed st j = some (requestId, c))
    (htotal : totalRatings = now.totalRatings + 1) {t : Option Stage}
    (ht : t.bind Stage.owing = none) (row : Collector) (hrow : row ∈ w.collectors) :
    ((World.averagedAs c reputationScore totalRatings requiresQa row).totalRatings : ℕ∞) +
      (owers (Function.update st j t) row.id).encard = (rated w row.id).encard := by
  rw [owers_release howed ht]
  by_cases hid : row.id = c
  · have hsame : row = now := by
      have hlook := lookup_of_mem h.sound.collectors hrow
      rw [hid] at hlook
      exact Option.some.inj (hlook.symm.trans hfound)
    have hmine : j ∈ owers st row.id := ⟨requestId, hid ▸ howed⟩
    have hnumber : (World.averagedAs c reputationScore totalRatings requiresQa row).totalRatings =
        row.totalRatings + 1 := by
      rw [World.averagedAs, if_pos hid, hsame]
      exact htotal
    rw [if_pos hid.symm, hnumber, ← h.totals row hrow, ← Set.encard_sdiff_singleton_add_one hmine]
    push_cast
    rw [add_right_comm, ← add_assoc]
  · rw [if_neg (Ne.symm hid), World.averagedAs, if_neg hid]
    exact h.totals row hrow

end Found

theorem call_update (h : Kept w st) (hj : st j = some s)
    (hallowed : Allowed s (.updateCollector requestId c reputationScore totalRatings requiresQa))
    (hfirm : Firm w d (.updateCollector requestId c reputationScore totalRatings requiresQa)) :
    Kept (w.after (.updateCollector requestId c reputationScore totalRatings requiresQa) d)
      (Function.update st j (some { s with owing := none })) := by
  obtain ⟨owedTo, read, howing, hread, rfl, rfl⟩ := hallowed
  obtain ⟨happlied, hfresh⟩ := hfirm
  have hknows := h.knows j s hj
  have howed : owed st j = some (requestId, owedTo) := by
    rw [owed, hj]
    exact howing
  obtain rfl := hknows.collector requestId owedTo read howing hread
  obtain ⟨hmem, hnot, -⟩ := hknows.owing requestId read.id howing
  have hafter : w.after (.updateCollector requestId read.id reputationScore (read.totalRatings + 1)
      requiresQa) d = w.effect (.updateCollector requestId read.id reputationScore
        (read.totalRatings + 1) requiresQa) := if_pos happlied
  rw [hafter]
  have hknows' : Knows w { s with owing := none } :=
    ⟨hknows.found, fun _ _ he => (by cases he), fun _ _ _ he => (by cases he)⟩
  cases hfound : w.findCollector read.id with
  | none =>
    have heffect : w.effect
      (.updateCollector requestId read.id reputationScore (read.totalRatings + 1)
        requiresQa) = w := by
      simp [World.effect, hfound]
    rw [heffect]
    refine h.release (fun s' hs' => ?_) rfl fun id' c' howed' row hrow => ?_
    · cases hs'
      exact hknows'
    · cases howed.symm.trans howed'
      exact lookup_eq_none.mp hfound row hrow
  | some now =>
    refine ⟨sound_update hfound h.sound hmem hnot, knows_update (fun k t hkj ht => ?_)
      fun t ht => ?_, apart_release h.apart rfl, fun row hrow => ?_⟩
    · refine (h.knows k t ht).update hfound fun c' ho =>
        hkj (h.apart k j requestId c' read.id ?_ howed)
      rw [owed, ht]
      exact ho
    · cases ht
      exact hknows'.update hfound fun _ he => (by cases he)
    · rw [collectors_update hfound] at hrow
      obtain ⟨old, hold, rfl⟩ := List.mem_map.mp hrow
      rw [id_averagedAs, rated_update]
      exact totals_update hfound h howed (hfresh now hfound) rfl old hold

end Averages

theorem call_kept (h : Kept w st) (hj : st j = some s) (hallowed : Allowed s i)
    (hfirm : Firm w d i) :
    Kept (w.after i d) (Function.update st j (some (next s i (w.reply i d)))) := by
  cases i with
  | findRequest id => exact call_findRequest h hj hallowed
  | rate id rating feedback => exact call_rate h hj hallowed hfirm
  | findCollector c => exact call_findCollector h hj hallowed hfirm
  | updateCollector requestId c reputationScore totalRatings requiresQa =>
    exact call_update h hj hallowed hfirm

theorem outside_request (h : Kept w st) {row : Request} (hrating : row.rating = none)
    (hopen : ∀ old, w.findRequest row.id = some old → old.status ≠ .completed) :
    Kept { w with requests := upsert Request.id w.requests row } st := by
  have hfind
    (k : String) : World.findRequest { w with requests := upsert Request.id w.requests row } k =
      if row.id = k then some row else w.findRequest k := lookup_upsert
  have hkept {k : String} {old : Request} (hold : w.findRequest k = some old)
      (hstatus : old.status = .completed) :
      World.findRequest { w with requests := upsert Request.id w.requests row } k = some old := by
    rw [hfind, if_neg, hold]
    rintro rfl
    exact hopen old hold hstatus
  have hrated : rated { w with requests := upsert Request.id w.requests row } = rated w := by
    funext c
    ext k
    rw [mem_rated, mem_rated]
    constructor
    · rintro ⟨now, hnow, hc, hstatus, hsome⟩
      rw [hfind] at hnow
      split at hnow
      · cases hnow
        rw [hrating] at hsome
        cases hsome
      · exact ⟨now, hnow, hc, hstatus, hsome⟩
    · rintro ⟨now, hnow, hc, hstatus, hsome⟩
      exact ⟨now, hkept hnow hstatus, hc, hstatus, hsome⟩
  refine ⟨⟨nodup_upsert h.sound.requests, h.sound.collectors, h.sound.named, h.sound.once, ?_⟩, ?_,
    h.apart, ?_⟩
  · intro k hk
    obtain ⟨now, hnow, hstatus, hsome⟩ := h.sound.contributed k hk
    exact ⟨now, hkept hnow hstatus, hstatus, hsome⟩
  · intro j s hj
    refine (h.knows j s hj).mono (fun k now hnow hstatus => ⟨now, hkept hnow hstatus, hstatus, rfl⟩)
      (fun c => by rw [hrated]) fun k c ho => ((h.knows j s hj).owing k c ho).2.1
  · rw [hrated]
    exact h.totals

theorem outside_collector (h : Kept w st) {row : Collector}
    (hrow : row.id ≠ "" ∧ ((w.findCollector row.id = none ∧ row.totalRatings = 0 ∧
      ∀ request ∈ w.requests, request.collectorId ≠ some row.id) ∨
        ∃ old, w.findCollector row.id = some old ∧ row.totalRatings = old.totalRatings)) :
    Kept { w with collectors := upsert Collector.id w.collectors row } st := by
  have hmem {u : Collector} (hu : u ∈ upsert Collector.id w.collectors row) :
      u = row ∨ u ∈ w.collectors ∧ u.id ≠ row.id := by
    have hlook := lookup_of_mem (nodup_upsert (x := row) h.sound.collectors) hu
    rw [lookup_upsert] at hlook
    split at hlook
    · exact .inl (Option.some.inj hlook).symm
    · exact .inr ⟨mem_of_lookup hlook, fun he => absurd he.symm ‹_›⟩
  refine ⟨⟨h.sound.requests, nodup_upsert h.sound.collectors, ?_, h.sound.once,
    h.sound.contributed⟩, fun j s hj => ?_, h.apart, fun u hu => ?_⟩
  · intro u hu
    rcases hmem hu with rfl | ⟨hu, -⟩
    · exact hrow.1
    · exact h.sound.named u hu
  · exact (h.knows j s hj).mono (lasting_refl w) (fun c => subset_rfl)
      fun k c ho => ((h.knows j s hj).owing k c ho).2.1
  · rcases hmem hu with rfl | ⟨hu, -⟩
    · rcases hrow.2 with ⟨-, hzero, hnone⟩ | ⟨old, hold, hsame⟩
      · have hempty : rated w u.id = ∅ := by
          ext k
          rw [mem_rated]
          refine ⟨?_, fun hk => hk.elim⟩
          rintro ⟨now, hnow, hc, -⟩
          exact absurd hc (hnone now (mem_of_lookup hnow))
        have howers : owers st u.id = ∅ := by
          ext k
          refine ⟨?_, fun hk => hk.elim⟩
          rintro ⟨id, hk⟩
          obtain ⟨s, hs, ho⟩ := Option.bind_eq_some_iff.mp hk
          have hrated := ((h.knows k s hs).owing id u.id ho).1
          rw [hempty] at hrated
          exact hrated
        have hzero' : (u.totalRatings : ℕ∞) + (owers st u.id).encard = (rated w u.id).encard := by
          rw [hempty, howers, hzero, Set.encard_empty, Set.encard_empty, Nat.cast_zero, zero_add]
        exact hzero'
      · have htotals := h.totals old (mem_of_lookup hold)
        rw [key_of_lookup hold, ← hsame] at htotals
        exact htotals
    · exact h.totals u hu

theorem outside_kept (h : Kept w st) {e : Outside} (hw : outside w e = some w') : Kept w' st := by
  cases e with
  | request row =>
    change (if _ then _ else none) = _ at hw
    split at hw
    · rename_i hrow
      cases hw
      refine outside_request h hrow.1 fun old hold => ?_
      have hall := hrow.2
      rw [hold] at hall
      simpa using hall
    · cases hw
  | collector row =>
    unfold outside at hw
    cases hfound : w.findCollector row.id with
    | none =>
      simp only [hfound] at hw
      split at hw
      · rename_i hrow
        cases hw
        exact outside_collector h ⟨hrow.1, .inl ⟨hfound, hrow.2⟩⟩
      · cases hw
    | some old =>
      simp only [hfound] at hw
      split at hw
      · rename_i hrow
        cases hw
        refine outside_collector h ⟨?_, .inr ⟨old, hfound, hrow⟩⟩
        rw [← show old.id = row.id from key_of_lookup hfound]
        exact h.sound.named old (mem_of_lookup hfound)
      · cases hw

theorem run_kept {es : List RaceEvent} {c : Race} (hsound : Sound w)
    (htotals : ∀ row ∈ w.collectors, row.totalRatings = ratedCount w row.id)
    (hfirm : Along system.step Firmly (quiescent w) es)
    (hrun : run system.step (quiescent w) es = some c) : Kept c.world (stages c) := by
  refine run_stages (S := system) (C := Firmly)
    (I := Kept) follows_program ?_ ?_ ?_ ?_ ?_ ?_ hfirm hrun
  · intro w st j h hj
    exact h.stage (knows_first w) (by rw [hj]; rfl)
  · exact fun c j d s i h hj hi hallowed hC => call_kept h hj hallowed (hC i hi)
  · intro c j h hC
    exact h.release (fun s hs => by cases hs) rfl fun id k hk => by
      rw [show owed (stages c) j = none from hC] at hk
      cases hk
  · exact fun c e w h _ hw => outside_kept h hw
  · exact fun j t ht => by cases ht
  · refine ⟨hsound, fun j s hj => (by cases hj), fun i j id c c' hi => (by cases hi),
      fun row hrow => ?_⟩
    have hnone : owers (stages (quiescent w)) row.id = ∅ := by
      ext k
      simp [owers, owed, stages, quiescent]
    rw [hnone, Set.encard_empty, add_zero, htotals row hrow]
    exact (encard_rated hsound row.id).symm

/-- Whatever the order of the calls, the average of a collector takes in each rating once, and has
as many of them as completed requests that were rated while none is on its way, where every write
finds its row as it was read and no call ends between its two. -/
theorem ratings_counted_once {es : List RaceEvent} {c : Race} (hsound : Sound w)
    (htotals : ∀ row ∈ w.collectors, row.totalRatings = ratedCount w row.id)
    (hfirm : Along system.step Firmly (quiescent w) es)
    (hrun : run system.step (quiescent w) es = some c) :
    (∀ id, c.world.contributions.count id ≤ 1) ∧
      ∀ row ∈ c.world.collectors, (∀ j id, owed (stages c) j ≠ some (id, row.id)) →
        row.totalRatings = ratedCount c.world row.id := by
  have hkept := run_kept hsound htotals hfirm hrun
  refine ⟨fun id => List.nodup_iff_count_le_one.mp hkept.sound.once id, fun row hrow hnone => ?_⟩
  have hequation := hkept.totals row hrow
  have hempty : owers (stages c) row.id = ∅ := by
    ext k
    simp [owers, hnone]
  rw [hempty, Set.encard_empty, add_zero, encard_rated hkept.sound] at hequation
  exact_mod_cast hequation

/-! ### Two ratings at once -/

def fiveStars : RateCollectionDto := ⟨5, none, by decide, by decide, fun _ h => by cases h⟩

def twoCompleted : World where
  requests := [⟨"first", .completed, "household", some "collector", none, none⟩,
    ⟨"second", .completed, "household", some "collector", none, none⟩]
  collectors := [⟨"collector", 5, 0, false⟩]
  contributions := []

theorem twoCompleted_sound : Sound twoCompleted :=
  ⟨by decide, by decide, by decide, by decide, by decide⟩

def rating (j : ℕ) (id : String) : RaceEvent := .start j ⟨"household", id, fiveStars⟩

def answered (j calls : ℕ) : List RaceEvent := List.replicate calls (.advance j .done)

/-- `Firmly` as a test. -/
def firmly (c : Race) : RaceEvent → Bool
  | .advance j d =>
    match pending c j with
    | some (.rate id _ _) => decide (d = .done) &&
        (c.world.findRequest id).all fun row => row.rating.isNone
    | some (.findCollector _) => decide (d = .done)
    | some (.updateCollector _ collectorId _ totalRatings _) => d.applied &&
        (c.world.findCollector collectorId).all fun row => totalRatings == row.totalRatings + 1
    | _ => true
  | .stop _ => false
  | _ => true

theorem firmly_of_test {c : Race} {e : RaceEvent} (h : firmly c e = true) : Firmly c e := by
  cases e with
  | advance j d =>
    intro i hi
    simp only [firmly, hi] at h
    cases i with
    | findRequest id => trivial
    | rate id rating feedback =>
      obtain ⟨hdone, hall⟩ := Bool.and_eq_true_iff.mp h
      refine fun _ => ⟨of_decide_eq_true hdone, fun row hrow => ?_⟩
      rw [hrow] at hall
      exact Option.isNone_iff_eq_none.mp hall
    | findCollector c =>
      have hdone : d = .done := of_decide_eq_true h
      exact hdone
    | updateCollector requestId c reputationScore totalRatings requiresQa =>
      obtain ⟨happlied, hall⟩ := Bool.and_eq_true_iff.mp h
      refine ⟨happlied, fun row hrow => ?_⟩
      rw [hrow] at hall
      exact beq_iff_eq.mp hall
  | stop j => cases h
  | _ => trivial

theorem ratings_counted_once_rated : ∃ c,
    run system.step (quiescent twoCompleted) (rating 0 "first" :: answered 0 4) = some c ∧
      (∀ id, c.world.contributions.count id ≤ 1) ∧
      ∀ row ∈ c.world.collectors, (∀ j id, owed (stages c) j ≠ some (id, row.id)) →
        row.totalRatings = ratedCount c.world row.id := by
  obtain ⟨c, hc⟩ := Option.isSome_iff_exists.mp (show (run system.step (quiescent twoCompleted)
    (rating 0 "first" :: answered 0 4)).isSome = true by decide +kernel)
  have hfirm : Along system.step Firmly (quiescent twoCompleted)
    (rating 0 "first" :: answered 0 4) :=
    along_mono (fun _ _ h => firmly_of_test h) (by decide +kernel)
  exact ⟨c, hc, ratings_counted_once twoCompleted_sound (by decide +kernel) hfirm hc⟩

/-- The number of ratings, the requests that have one, and those whose rating was taken in. -/
def counted (c : Race) : List ℕ × ℕ × List String :=
  (c.world.collectors.map Collector.totalRatings, ratedCount c.world "collector",
    c.world.contributions)

/-- A request that two calls have read before either wrote is taken in twice, and of two requests
whose averages were read together one is lost. -/
theorem rated_by_stale_rows :
    Sound twoCompleted ∧
    (∃ c, run system.step (quiescent twoCompleted)
      (rating 0 "first" :: rating 1 "first" :: answered 0 1 ++ answered 1 4 ++ answered 0 3) =
        some c ∧
        counted c = ([2], 1, ["first", "first"])) ∧
    ∃ c, run system.step (quiescent twoCompleted)
      (rating 0 "first" :: rating 1 "second" :: answered 0 3 ++ answered 1 4 ++ answered 0 1) =
        some c ∧
        counted c = ([1], 2, ["second", "first"]) := by
  refine ⟨twoCompleted_sound, ?_, ?_⟩
  · have hrun : (run system.step (quiescent twoCompleted) (rating 0 "first" :: rating 1 "first" ::
        answered 0 1 ++ answered 1 4 ++ answered 0 3)).map counted =
          some ([2], 1, ["first", "first"]) := by decide +kernel
    exact Option.map_eq_some_iff.mp hrun
  · have hrun : (run system.step (quiescent twoCompleted) (rating 0 "first" :: rating 1 "second" ::
        answered 0 3 ++ answered 1 4 ++ answered 0 1)).map counted =
          some ([1], 2, ["second", "first"]) := by decide +kernel
    exact Option.map_eq_some_iff.mp hrun

end Livora.RatingRaces
