import Livora.PoolAnswers
import Livora.StageViews
import Livora.UserCacheStages

/-! No answer shows a user active while the database says that the user is not, exactly where no
unexpired copy of the active user is kept or on its way. -/

namespace Livora.UserCacheRaces

open TransitionRuns EffectPrograms ProgramPools StageViews
open ProgramPools.System hiding outside
open PoolAnswers AuthBooks UserCaches UserCacheStages
open OtpCodes (live live_eq_some)
open PinVerification (Delivery)

/-! ### Copies of an active user -/

variable {w : World} {st : ℕ → Option Stage} {u : String} {p : ℕ}

def Inactive (w : World) (u : String) : Prop := ∀ user, w.find u = some user → user.active = false

/-- No process and not Redis keeps an unexpired copy of the active user, and none is sent to
Redis. -/
structure Clear (w : World) (u : String) : Prop where
  memory : ∀ p e, (w.memory p).lookup u = some e → e.user.active = true → e.expires ≤ w.now
  redis : ∀ e, w.redis u = some e → e.value.active = true → e.expiresAt ≤ w.now
  sent : ∀ p user, Command.set u user ∈ w.sent p → user.active = false

def seen : Stage → Option (String × User)
  | .fetched _ id user => some (id, user)
  | .told id (some user) => some (id, user)
  | _ => none

def Blind (st : ℕ → Option Stage) (u : String) : Prop :=
  ∀ j user, view seen st j = some (u, user) → user.active = false

def NoCopies (c : Race) (u : String) : Prop := Clear c.world u ∧ Blind (active c) u

theorem clear_memory (h : Clear w u) {m : ℕ → MemoryCache}
    (hm : ∀ p e, (m p).lookup u = some e → (w.memory p).lookup u = some e ∨ e.user.active = false) :
    Clear { w with memory := m } u := by
  refine ⟨fun p e he hactive => ?_, h.redis, h.sent⟩
  rcases hm p e he with hold | hinactive
  · exact h.memory p e hold hactive
  · exact absurd hactive (by simp [hinactive])

theorem clear_update (h : Clear w u) {m : MemoryCache}
    (hm : ∀ e, m.lookup u = some e → (w.memory p).lookup u = some e ∨ e.user.active = false) :
    Clear { w with memory := Function.update w.memory p m } u := by
  refine clear_memory h fun q e he => ?_
  by_cases hq : q = p
  · subst hq
    rw [Function.update_self] at he
    exact hm e he
  · rw [Function.update_of_ne hq] at he
    exact .inl he

theorem clear_remember (h : Clear w u) {id : String} {e : Entry}
    (he : id = u → e.user.active = false) :
    Clear (w.remember p id e) u := by
  refine clear_update h fun e' he' => ?_
  by_cases hid : u = id
  · subst hid
    rw [AList.lookup_insert] at he'
    cases he'
    exact .inr (he rfl)
  · rw [AList.lookup_insert_ne hid] at he'
    exact .inl he'

theorem lookup_erase_all {l : List (Sigma fun _ : String => Entry)} {m : MemoryCache} {e : Entry}
    (h : (l.foldl (fun m e => m.erase e.1) m).lookup u = some e) : m.lookup u = some e := by
  induction l generalizing m with
  | nil => exact h
  | cons x l ih =>
    have herase := ih h
    by_cases hu : u = x.1
    · subst hu
      rw [AList.lookup_erase] at herase
      cases herase
    · rwa [AList.lookup_erase_ne hu] at herase

theorem clear_tidy (h : Clear w u) (now : ℕ) : Clear (w.tidy p now) u := by
  unfold World.tidy
  split
  · exact clear_update h fun e he => .inl (lookup_erase_all he)
  · exact h

theorem clear_sent (h : Clear w u) {sent : List Command}
    (hsent : ∀ user, Command.set u user ∈ sent → Command.set u user ∈ w.sent p ∨
      user.active = false) :
    Clear { w with sent := Function.update w.sent p sent } u := by
  refine ⟨h.memory, h.redis, fun q user hmem => ?_⟩
  change _ ∈ Function.update w.sent p sent q at hmem
  by_cases hq : q = p
  · subst hq
    rw [Function.update_self] at hmem
    rcases hsent user hmem with hold | hinactive
    · exact h.sent q user hold
    · exact hinactive
  · rw [Function.update_of_ne hq] at hmem
    exact h.sent q user hmem

theorem clear_send (h : Clear w u) {command : Command}
    (hcommand : ∀ user, command = .set u user → user.active = false) :
    Clear (w.send p command) u := by
  refine clear_sent h fun user hmem => ?_
  rcases List.mem_append.mp hmem with hold | hnew
  · exact .inl hold
  · exact .inr (hcommand user (List.mem_singleton.mp hnew).symm)

theorem clear_execute (h : Clear w u) {command : Command}
    (hcommand : ∀ user, command = .set u user → user.active = false) :
    Clear (w.execute command) u := by
  cases command with
  | set id user =>
    refine ⟨h.memory, fun e he hactive => ?_, h.sent⟩
    change Function.update w.redis id _ u = some e at he
    by_cases hid : u = id
    · subst hid
      rw [Function.update_self] at he
      cases he
      exact absurd hactive (by simp [hcommand user rfl])
    · rw [Function.update_of_ne hid] at he
      exact h.redis e he hactive
  | del id =>
    refine ⟨h.memory, fun e he hactive => ?_, h.sent⟩
    change Function.update w.redis id _ u = some e at he
    by_cases hid : u = id
    · subst hid
      rw [Function.update_self] at he
      cases he
    · rw [Function.update_of_ne hid] at he
      exact h.redis e he hactive

theorem clear_executes {l : List Command} (h : Clear w u)
    (hl : ∀ user, Command.set u user ∈ l → user.active = false) :
    Clear (l.foldl World.execute w) u := by
  induction l generalizing w with
  | nil => exact h
  | cons command l ih =>
    refine ih (clear_execute h fun user hc => hl user ?_) fun user hu =>
      hl user (List.mem_cons_of_mem _ hu)
    rw [hc]
    exact List.mem_cons_self

theorem clear_flush (h : Clear w u) : Clear (w.flush p) u :=
  clear_executes (clear_sent h fun _ hmem => by cases hmem) fun user hu => h.sent p user hu

theorem clear_evict (h : Clear w u) (id : String) : Clear (w.evict p id) u := by
  refine clear_send (clear_update h fun e he => .inl ?_) fun user hc => (by cases hc)
  by_cases hid : u = id
  · subst hid
    rw [AList.lookup_erase] at he
    cases he
  · rwa [AList.lookup_erase_ne hid] at he

theorem clear_store (h : Clear w u) {id : String} {user : User} {now : ℕ}
    (huser : id = u → user.active = false) :
    Clear (((w.remember p id ⟨user, now + defaultTtl⟩).tidy p now).send p (.set id user)) u := by
  refine clear_send (clear_tidy (clear_remember h huser) now) fun user' hc => ?_
  cases hc
  exact huser rfl

theorem blind_update {j : ℕ} {t : Option Stage} (h : Blind st u)
    (ht : ∀ s user, t = some s → seen s = some (u, user) → user.active = false) :
    Blind (Function.update st j t) u := by
  intro k user hk
  rcases view_cases hk with ⟨-, hx⟩ | ⟨-, hold⟩
  · obtain ⟨s, hs, hseen⟩ := Option.bind_eq_some_iff.mp hx
    exact ht s user hs hseen
  · exact h k user hold

theorem seen_of_blind {j : ℕ} {s : Stage} {user : User} (h : Blind st u) (hs : st j = some s)
    (hseen : seen s = some (u, user)) : user.active = false :=
  h j user ((view_eq hs).trans hseen)

/-! ### No copies -/

theorem active_of_admitted {user safeUser : User} (h : admitted (some user) = .ok safeUser) :
    user.active = true := by
  simp only [admitted] at h
  split at h
  · cases h
  · rename_i hpresent
    simpa [User.active, and_comm] using hpresent

theorem hidden_of_blind {j : ℕ} {s : Stage} {x : Answer} (h : Blind st u) (hs : st j = some s)
    (hdone : Done s x) : ¬x.ShowsActive u := by
  cases s with
  | told id found =>
    cases found with
    | none => rcases hdone with rfl | rfl <;> exact fun h => h
    | some user =>
      rcases hdone with rfl | rfl
      · rintro ⟨rfl, hactive⟩
        exact absurd hactive (by simp [seen_of_blind h hs rfl])
      · intro hshows
        cases hadmitted : admitted (some user) with
        | error e =>
          rw [hadmitted] at hshows
          exact hshows
        | ok safeUser =>
          rw [hadmitted] at hshows
          subst hshows
          exact absurd (active_of_admitted hadmitted) (by simp [seen_of_blind h hs rfl])
  | quiet => exact hdone u
  | first => exact hdone.elim
  | missed p id => exact hdone.elim
  | fetched p id user => exact hdone.elim

theorem clear_ite {w' : World} {c : Prop} [Decidable c] (h : Clear w u) (h' : Clear w' u) :
    Clear (if c then w' else w) u := by
  split
  · exact h'
  · exact h

theorem clear_after {i : Op} {o : Outcome} {j : ℕ} {s : Stage} (h : Clear w u) (hblind : Blind st u)
    (hs : st j = some s) (hallowed : Allowed s i) : Clear (w.after i o) u := by
  cases i with
  | lookMemory p id => exact h
  | getCached p id => exact clear_ite h (clear_flush h)
  | remember p id user expires =>
    refine clear_remember h fun hid => ?_
    subst hid hallowed
    exact seen_of_blind hblind hs rfl
  | store p id user now =>
    refine clear_store h fun hid => ?_
    subst hid hallowed
    exact seen_of_blind hblind hs rfl
  | evict p id => exact clear_evict h id
  | findUser id => exact h
  | updateUser id data => exact clear_ite h ⟨h.memory, h.redis, h.sent⟩
  | anonymize id => exact clear_ite h ⟨h.memory, h.redis, h.sent⟩
  | findRetries userId => exact h
  | elsewhere => exact h

theorem inactive_of_look (h : Clear w u) {user : User} (hlook : w.look p u = some user) :
    user.active = false := by
  obtain ⟨e, he, rfl⟩ := Option.map_eq_some_iff.mp hlook
  obtain ⟨he, hlate⟩ := Option.filter_eq_some_iff.mp he
  by_contra hactive
  exact absurd (of_decide_eq_true hlate)
    (Nat.not_lt_of_le (h.memory p e he (by simpa using hactive)))

theorem inactive_of_live (h : Clear w u) {user : User}
    (hlive : live w.now (w.redis u) = some user) :
    user.active = false := by
  obtain ⟨e, he, rfl, hlate⟩ := live_eq_some.mp hlive
  by_contra hactive
  exact absurd hlate (Nat.not_lt_of_le (h.redis e he (by simpa using hactive)))

theorem now_executes {l : List Command} : (l.foldl World.execute w).now = w.now := by
  induction l generalizing w with
  | nil => rfl
  | cons command l ih =>
    rw [List.foldl_cons, ih]
    cases command <;> rfl

theorem seen_next {i : Op} {o : Outcome} {s : Stage} {user : User} (h : Clear w u)
    (hinactive : Inactive w u)
    (hs : seen s = some (u, user) → user.active = false) (hallowed : Allowed s i)
    (hnext : seen (next s i (w.reply i o)) = some (u, user)) : user.active = false := by
  cases i with
  | lookMemory p id =>
    change seen (next s (.lookMemory p id) (.ok (w.now, w.look p id))) = _ at hnext
    cases hlook : w.look p id with
    | none =>
      rw [hlook] at hnext
      cases hnext
    | some found =>
      rw [hlook] at hnext
      cases hnext
      exact inactive_of_look h hlook
  | getCached p id =>
    cases hreply : w.reply (.getCached p id) o with
    | error e =>
      rw [hreply] at hnext
      cases hnext
    | ok found =>
      rw [hreply] at hnext
      cases found with
      | none => cases hnext
      | some found =>
        cases hnext
        obtain ⟨-, hlive⟩ := Delivery.answer_ok hreply
        rw [← now_executes (w := { w with sent := Function.update w.sent p [] }) (l := w.sent p)]
          at hlive
        exact inactive_of_live (clear_flush h) hlive
  | remember p id found expires =>
    subst hallowed
    exact hs hnext
  | store p id found now =>
    subst hallowed
    exact hs hnext
  | findUser id =>
    rcases hallowed with rfl | rfl | ⟨p, rfl⟩
    · cases hnext
    · cases hnext
    · cases hreply : w.reply (.findUser id) o with
      | error e =>
        rw [hreply] at hnext
        cases hnext
      | ok found =>
        rw [hreply] at hnext
        cases found with
        | none => cases hnext
        | some found =>
          cases hnext
          exact hinactive _ (Delivery.answer_ok hreply).2
  | evict p id => cases hnext
  | updateUser id data => cases hnext
  | anonymize id => cases hnext
  | findRetries userId => cases hnext
  | elsewhere => cases hnext

theorem clear_outside {d : Outside} {w' : World} (h : Clear w u) (hd : outside w d = some w') :
    Clear w' u := by
  cases d with
  | pass ms =>
    cases hd
    exact ⟨fun p e he hactive => (h.memory p e he hactive).trans (Nat.le_add_right _ _),
      fun e he hactive => (h.redis e he hactive).trans (Nat.le_add_right _ _), h.sent⟩
  | deliver p =>
    cases hsent : w.sent p with
    | nil => simp [outside, hsent] at hd
    | cons command sent =>
      simp only [outside, hsent, Option.some.injEq] at hd
      subst hd
      have hmem (c : Command) (hc : c ∈ command :: sent) : c ∈ w.sent p := by rwa [hsent]
      refine clear_execute (clear_sent h fun user hu =>
        .inl (hmem _ (List.mem_cons_of_mem _ hu))) ?_
      exact fun user hc => h.sent p user (hmem _ (hc ▸ List.mem_cons_self))
  | lose p =>
    cases hsent : w.sent p with
    | nil => simp [outside, hsent] at hd
    | cons command sent =>
      simp only [outside, hsent, Option.some.injEq] at hd
      subst hd
      refine clear_sent h fun user hu => .inl ?_
      rw [hsent]
      exact List.mem_cons_of_mem _ hu
  | restart p =>
    cases hd
    exact clear_sent (clear_update h fun e he => by cases he) fun user hu => by cases hu
  | signUp user =>
    simp only [outside] at hd
    split at hd
    · cases hd
      exact ⟨h.memory, h.redis, h.sent⟩
    · cases hd
  | edit id data =>
    simp only [outside] at hd
    split at hd
    · cases hd
      exact ⟨h.memory, h.redis, h.sent⟩
    · cases hd

/-! ### Runs -/

variable {c c' : Race} {es : List RaceEvent} {e : RaceEvent}

def Away (u : String) (c : Race) (_ : RaceEvent) : Prop := Inactive c.world u

/-- Nobody shows the user active as long as the database does not. -/
def Unseen (c : Race) (u : String) : Prop :=
  ∀ later c', Along system.step (Away u) c later → run system.step c later = some c' →
    ∀ r ∈ answers system c later, ¬r.2.ShowsActive u

theorem run_noCopies (hends : system.Ends Done c) (h : NoCopies c u)
    (haway : Along system.step (Away u) c es) (hrun : run system.step c es = some c') :
    (∀ r ∈ answers system c es, ¬r.2.ShowsActive u) ∧ NoCopies c' u := by
  refine run_answers (p := []) (I := fun h w st => (∀ r ∈ h, ¬r.2.ShowsActive u) ∧ Clear w u ∧
    Blind st u)
    keeps_handle calls_handle ?_ ?_ ?_ ?_ ?_ hends ⟨by simp, h⟩ haway hrun
  · rintro a c j call ⟨ha, hclear, hblind⟩ - -
    exact ⟨ha, hclear, blind_update hblind fun s user hs hseen => by cases hs; cases hseen⟩
  · rintro a c j o s i ⟨ha, hclear, hblind⟩ hs - hallowed haway
    refine ⟨ha, clear_after hclear hblind hs hallowed,
      blind_update hblind fun t user ht hseen => ?_⟩
    cases ht
    exact seen_next hclear haway (fun hread => seen_of_blind hblind hs hread) hallowed hseen
  · rintro a w st j s x ⟨ha, hclear, hblind⟩ hs hdone
    refine ⟨fun r hr => ?_, hclear, blind_update hblind fun t user ht => by cases ht⟩
    rcases List.mem_append.mp hr with hold | hnew
    · exact ha r hold
    · rw [List.mem_singleton.mp hnew]
      exact hidden_of_blind hblind hs hdone
  · rintro a c j ⟨ha, hclear, hblind⟩ -
    exact ⟨ha, hclear, blind_update hblind fun t user ht => by cases ht⟩
  · rintro a c d w ⟨ha, hclear, hblind⟩ - hd
    exact ⟨ha, clear_outside hclear hd, hblind⟩

theorem unseen_cons (h : Unseen c u) (haway : Inactive c.world u)
    (hstep : system.step c e = some c') :
    Unseen c' u ∧ ∀ r, answer system c e = some r → ¬r.2.ShowsActive u := by
  have hcons (later : List RaceEvent) : answers system c (e :: later) =
      (answer system c e).toList ++ answers system c' later := trace_cons hstep
  constructor
  · intro later c'' hlater hrun r hr
    refine h (e :: later) c'' (along_cons haway hstep hlater) (run_cons.mpr ⟨c', hstep, hrun⟩) r ?_
    rw [hcons]
    exact List.mem_append_right _ hr
  · intro r hr
    refine h [e] c' (along_cons haway hstep trivial) (run_cons.mpr ⟨c', hstep, rfl⟩) r ?_
    rw [hcons, hr]
    exact List.mem_cons_self

/-! ### A copy is shown -/

/-- From `n` on no place is taken and no process keeps anything. -/
def Idle (n : ℕ) (c : Race) : Prop :=
  Below n c ∧ ∀ p, n ≤ p → c.world.memory p = ∅ ∧ c.world.sent p = []

section Steps

variable {j : ℕ} {s : Stage} {i : Op} {o : Outcome}
  {k : Except Failure (Reply i) → Prog Op (fun i => Except Failure (Reply i)) Answer}
  {r : Except Failure (Reply i)} {x : Answer}

theorem unseen_start (h : Unseen c u) (haway : Inactive c.world u) (hj : c.tasks j = none)
    (call : Call) :
    ∃ c', Unseen c' u ∧ c'.world = c.world ∧ c'.tasks j = some ⟨.first, handle call⟩ :=
  ⟨_, (unseen_cons h haway (step_start.mpr ⟨hj, rfl⟩)).1, rfl, Function.update_self _ _ _⟩

theorem unseen_advance (h : Unseen c u) (haway : Inactive c.world u)
    (ht : c.tasks j = some ⟨s, .call i k⟩) (hr : c.world.reply i o = r) :
    ∃ c', Unseen c' u ∧ c'.world = c.world.after i o ∧ c'.tasks j = some ⟨next s i r, k r⟩ := by
  subst hr
  exact ⟨_, (unseen_cons h haway (step_advance.mpr ⟨s, i, k, ht, rfl⟩)).1, rfl,
    Function.update_self _ _ _⟩

theorem unseen_last (h : Unseen c u) (haway : Inactive c.world u)
    (ht : c.tasks j = some ⟨s, .call i k⟩)
    (hr : c.world.reply i o = r) (hx : k r = .done x) : ¬x.ShowsActive u := by
  subst hr
  have hstep : system.step c (.advance j o) = _ := step_advance.mpr ⟨s, i, k, ht, rfl⟩
  refine (unseen_cons h haway hstep).2 (j, x) ?_
  rw [answer_advance ht]
  change (PoolAnswers.Task.answered (some ⟨Stage.first, k (c.world.reply i o)⟩)).map _ = _
  rw [hx]
  rfl

end Steps

def done : Outcome := ⟨.done, none⟩

def fetching (p : ℕ) (id : String) (now : ℕ) : Prog Op (fun i => Except Failure (Reply i)) Answer :=
  answering (.found id) (fetchUser p id now)

theorem handle_findById : ∃ k, handle (.findById p u) = .call (.lookMemory p u) k ∧
    (∀ now user, k (.ok (now, some user)) = .done (.found u (.ok (some user)))) ∧
    ∀ now, k (.ok (now, none)) = fetching p u now :=
  ⟨_, rfl, fun _ _ => rfl, fun _ => rfl⟩

theorem fetching_eq (now : ℕ) : ∃ k, fetching p u now = .call (.getCached p u) k ∧
    ∀ user, ∃ k', k (.ok (some user)) = .call (.remember p u user (now + defaultTtl)) k' ∧
      k' (.ok ()) = .done (.found u (.ok (some user))) :=
  ⟨_, rfl, fun _ => ⟨_, rfl, rfl⟩⟩

variable {n : ℕ} {user : User}

theorem inactive_of_not_shown (h : ¬Answer.ShowsActive u (.found u (.ok (some user)))) :
    user.active = false := by
  by_contra hactive
  exact h ⟨rfl, by simpa using hactive⟩

theorem look_shown (hidle : Idle n c) (h : Unseen c u) (haway : Inactive c.world u)
    (hlook : c.world.look p u = some user) : user.active = false := by
  obtain ⟨k, hk, hhit, -⟩ := handle_findById (p := p) (u := u)
  obtain ⟨c₁, h₁, hw, ht⟩ := unseen_start h haway (hidle.1 n le_rfl) (.findById p u)
  rw [hk] at ht
  have hreply : c₁.world.reply (.lookMemory p u) done = .ok (c.world.now, some user) := by
    rw [hw, ← hlook]
    rfl
  exact inactive_of_not_shown (unseen_last h₁ (hw ▸ haway) ht hreply (hhit _ _))

theorem flush_idle (hsent : w.sent p = []) : w.flush p = w := by
  have hsame : Function.update w.sent p [] = w.sent := by rw [← hsent, Function.update_eq_self]
  unfold World.flush
  rw [hsame, hsent]
  rfl

theorem live_shown (hidle : Idle n c) (h : Unseen c u) (haway : Inactive c.world u)
    (hlive : live c.world.now (c.world.redis u) = some user) : user.active = false := by
  obtain ⟨k, hk, -, hmiss⟩ := handle_findById (p := n) (u := u)
  obtain ⟨k₁, hk₁, hcached⟩ := fetching_eq (p := n) (u := u) c.world.now
  obtain ⟨k₂, hk₂, hlast⟩ := hcached user
  obtain ⟨hmemory, hsent⟩ := hidle.2 n le_rfl
  obtain ⟨c₁, h₁, hw₁, ht₁⟩ := unseen_start h haway (hidle.1 n le_rfl) (.findById n u)
  rw [hk] at ht₁
  have hreply₁ : c₁.world.reply (.lookMemory n u) done = .ok (c.world.now, none) := by
    have hlook : c.world.look n u = none := by
      rw [World.look, hmemory]
      rfl
    rw [hw₁, ← hlook]
    rfl
  obtain ⟨c₂, h₂, hw₂, ht₂⟩ := unseen_advance h₁ (hw₁ ▸ haway) ht₁ hreply₁
  replace hw₂ : c₂.world = c.world := hw₂.trans hw₁
  rw [hmiss, hk₁] at ht₂
  have hreply₂ : c₂.world.reply (.getCached n u) done = .ok (some user) := by
    rw [hw₂]
    change Delivery.answer .done .outside (live c.world.now ((c.world.flush n).redis u)) = _
    rw [flush_idle hsent, hlive]
    rfl
  obtain ⟨c₃, h₃, hw₃, ht₃⟩ := unseen_advance h₂ (hw₂ ▸ haway) ht₂ hreply₂
  replace hw₃ : c₃.world = c.world := by
    rw [hw₃, hw₂]
    exact flush_idle hsent
  rw [hk₂] at ht₃
  exact inactive_of_not_shown (unseen_last (o := done) h₃ (hw₃ ▸ haway) ht₃ rfl hlast)

theorem memory_execute (command : Command) : (w.execute command).memory = w.memory := by
  cases command <;> rfl

theorem sent_execute (command : Command) : (w.execute command).sent = w.sent := by
  cases command <;> rfl

theorem users_execute (command : Command) : (w.execute command).users = w.users := by
  cases command <;> rfl

theorem inactive_of_users {w' : World} (husers : w'.users = w.users) (h : Inactive w u) :
    Inactive w' u := by
  unfold Inactive World.find
  rw [husers]
  exact h

theorem sent_shown {sent : List Command} (hidle : Idle n c) (h : Unseen c u)
    (haway : Inactive c.world u)
    (hp : p < n) (hsent : c.world.sent p = sent) (hmem : Command.set u user ∈ sent) :
    user.active = false := by
  induction sent generalizing c with
  | nil => cases hmem
  | cons command sent ih =>
    let w' := ({ c.world with sent := Function.update c.world.sent p sent } : World).execute command
    have hdeliver : system.step c (.outside (.deliver p)) = some { c with world := w' } := by
      refine step_outside.mpr ⟨w', ?_, rfl⟩
      change outside c.world (.deliver p) = _
      simp only [outside, hsent, w']
    obtain ⟨hunseen, -⟩ := unseen_cons h haway hdeliver
    have haway' : Inactive w' u := inactive_of_users (users_execute command) haway
    have hsent' : w'.sent = Function.update c.world.sent p sent := sent_execute command
    have hidle' : Idle n { c with world := w' } := by
      refine ⟨hidle.1, fun q hq => ?_⟩
      obtain ⟨hmemory, hnone⟩ := hidle.2 q hq
      refine ⟨(congrFun (memory_execute command) q).trans hmemory, ?_⟩
      rw [hsent', Function.update_of_ne (by omega), hnone]
    rcases List.mem_cons.mp hmem with hfirst | hlater
    · refine live_shown hidle' hunseen haway'
        (live_eq_some.mpr ⟨⟨user, c.world.now + seconds 30⟩, ?_, rfl, ?_⟩)
      · subst hfirst
        exact Function.update_self _ _ _
      · subst hfirst
        exact Nat.lt_add_of_pos_right (by decide)
    · exact ih hidle' hunseen haway' (by rw [hsent', Function.update_self]) hlater

theorem not_allowed_told {id : String} {found : Option User} {i : Op} :
    ¬Allowed (.told id found) i := by
  cases i <;> simp [Allowed]

theorem allowed_fetched {id : String} {i : Op} (h : Allowed (.fetched p id user) i) :
    (∃ expires, i = .remember p id user expires) ∨ ∃ now, i = .store p id user now := by
  cases i with
  | remember p' id' user' expires =>
    cases h
    exact .inl ⟨expires, rfl⟩
  | store p' id' user' now =>
    cases h
    exact .inr ⟨now, rfl⟩
  | _ => simp [Allowed] at h

theorem told_done {rest : Prog Op (fun i => Except Failure (Reply i)) Answer}
    (h : Keeps protocol Done (.told u (some user)) rest) :
    ∃ x, rest = .done x ∧ (user.active = true → x.ShowsActive u) := by
  cases rest with
  | call i k => exact absurd h.1 not_allowed_told
  | done x =>
    refine ⟨x, rfl, fun hactive => ?_⟩
    rcases h with rfl | rfl
    · exact ⟨rfl, hactive⟩
    · have hadmitted : admitted (some user) = .ok { user with encryptedPrivateKey := none } := by
        simpa [admitted, User.active, and_comm] using hactive
      rw [hadmitted]
      rfl

theorem read_shown {j : ℕ} (hends : system.Ends Done c) (h : Unseen c u)
    (haway : Inactive c.world u)
    (hread : view seen (active c) j = some (u, user)) : user.active = false := by
  obtain ⟨s, hs, hseen⟩ := view_some.mp hread
  obtain ⟨i, k, ht⟩ := active_some.mp hs
  obtain ⟨hallowed, hkeeps⟩ := hends j _ ht
  by_contra hinactive
  have hactive : user.active = true := by simpa using hinactive
  cases s with
  | first => cases hseen
  | missed p id => cases hseen
  | quiet => cases hseen
  | told id found => exact not_allowed_told hallowed
  | fetched p id read =>
    cases hseen
    rcases allowed_fetched hallowed with ⟨expires, rfl⟩ | ⟨now, rfl⟩
    · obtain ⟨x, hx, hshows⟩ := told_done (hkeeps (.ok ()))
      exact unseen_last (o := done) h haway ht rfl hx (hshows hactive)
    · obtain ⟨x, hx, hshows⟩ := told_done (hkeeps (.ok ()))
      exact unseen_last (o := done) h haway ht rfl hx (hshows hactive)

theorem noCopies_of_unseen (hends : system.Ends Done c) (hidle : Idle n c) (h : Unseen c u)
    (haway : Inactive c.world u) : NoCopies c u := by
  refine ⟨⟨fun p e he hactive => ?_, fun e he hactive => ?_, fun p user hmem => ?_⟩,
    fun j user hread => ?_⟩
  · by_contra hlate
    have hlook : c.world.look p u = some e.user := by
      rw [World.look, he]
      simp [Option.filter, Nat.lt_of_not_le hlate]
    exact absurd hactive (by simp [look_shown hidle h haway hlook])
  · by_contra hlate
    have hlive := live_eq_some.mpr ⟨e, he, rfl, Nat.lt_of_not_le hlate⟩
    exact absurd hactive (by simp [live_shown hidle h haway hlive])
  · refine sent_shown (n := max n (p + 1)) ?_ h haway (by omega) rfl hmem
    exact ⟨fun j hj => hidle.1 j (by omega), fun q hq => hidle.2 q (by omega)⟩
  · exact read_shown hends h haway hread

/-! ### Few processes -/

def process : Op → Option ℕ
  | .lookMemory p _ => some p
  | .getCached p _ => some p
  | .remember p _ _ _ => some p
  | .store p _ _ _ => some p
  | .evict p _ => some p
  | _ => none

theorem kept_executes {l : List Command} :
    (l.foldl World.execute w).memory = w.memory ∧ (l.foldl World.execute w).sent = w.sent := by
  induction l generalizing w with
  | nil => exact ⟨rfl, rfl⟩
  | cons command l ih =>
    rw [List.foldl_cons, ih.1, ih.2]
    exact ⟨memory_execute command, sent_execute command⟩

theorem kept_after {i : Op} {o : Outcome} {q : ℕ} (hq : process i ≠ some q) :
    (w.after i o).memory q = w.memory q ∧ (w.after i o).sent q = w.sent q := by
  cases i with
  | getCached p id =>
    have hne : q ≠ p := fun h => hq (congrArg some h.symm)
    change (if _ then w.flush p else w).memory q = _ ∧ (if _ then w.flush p else w).sent q = _
    split
    · unfold World.flush
      rw [kept_executes.1, kept_executes.2]
      exact ⟨rfl, Function.update_of_ne hne _ _⟩
    · exact ⟨rfl, rfl⟩
  | remember p id user expires =>
    have hne : q ≠ p := fun h => hq (congrArg some h.symm)
    exact ⟨Function.update_of_ne hne _ _, rfl⟩
  | store p id user now =>
    have hne : q ≠ p := fun h => hq (congrArg some h.symm)
    change (World.send (World.tidy _ p now) p _).memory q = _ ∧
        (World.send (World.tidy _ p now) p _).sent q = _
    unfold World.send World.tidy World.remember
    split <;> simp [hne]
  | evict p id =>
    have hne : q ≠ p := fun h => hq (congrArg some h.symm)
    exact ⟨Function.update_of_ne hne _ _, Function.update_of_ne hne _ _⟩
  | updateUser id data =>
    change (if _ then w.updateUser id data else w).memory q = _ ∧
        (if _ then w.updateUser id data else w).sent q = _
    split <;> exact ⟨rfl, rfl⟩
  | anonymize id =>
    change (if _ then w.updateUser id _ else w).memory q = _ ∧
        (if _ then w.updateUser id _ else w).sent q = _
    split <;> exact ⟨rfl, rfl⟩
  | _ => exact ⟨rfl, rfl⟩

def touched : Outside → Option ℕ
  | .deliver p => some p
  | .lose p => some p
  | .restart p => some p
  | _ => none

theorem kept_outside {d : Outside} {w' : World} {q : ℕ} (hd : outside w d = some w')
    (hq : touched d ≠ some q) :
    w'.memory q = w.memory q ∧ w'.sent q = w.sent q := by
  cases d with
  | pass ms =>
    cases hd
    exact ⟨rfl, rfl⟩
  | deliver p =>
    have hne : q ≠ p := fun h => hq (congrArg some h.symm)
    cases hsent : w.sent p with
    | nil => simp [outside, hsent] at hd
    | cons command sent =>
      simp only [outside, hsent, Option.some.injEq] at hd
      subst hd
      rw [memory_execute, sent_execute]
      exact ⟨rfl, Function.update_of_ne hne _ _⟩
  | lose p =>
    have hne : q ≠ p := fun h => hq (congrArg some h.symm)
    cases hsent : w.sent p with
    | nil => simp [outside, hsent] at hd
    | cons command sent =>
      simp only [outside, hsent, Option.some.injEq] at hd
      subst hd
      exact ⟨rfl, Function.update_of_ne hne _ _⟩
  | restart p =>
    have hne : q ≠ p := fun h => hq (congrArg some h.symm)
    cases hd
    exact ⟨Function.update_of_ne hne _ _, Function.update_of_ne hne _ _⟩
  | signUp user =>
    simp only [outside] at hd
    split at hd <;> cases hd
    exact ⟨rfl, rfl⟩
  | edit id data =>
    simp only [outside] at hd
    split at hd <;> cases hd
    exact ⟨rfl, rfl⟩

def beyond (p : Option ℕ) : ℕ := p.elim 0 (· + 1)

theorem ne_of_beyond {p : Option ℕ} {q : ℕ} (h : max n (beyond p) ≤ q) : p ≠ some q := by
  rintro rfl
  change max n (q + 1) ≤ q at h
  omega

/-- The place and the process of a step lie before it. -/
def bound (c : Race) : RaceEvent → ℕ
  | .start j _ => j + 1
  | .advance j _ => beyond ((pending c j).bind process)
  | .stop _ => 0
  | .outside d => beyond (touched d)

theorem step_idle (h : Idle n c) (hstep : system.step c e = some c') :
    Idle (max n (bound c e)) c' := by
  have hmore (m : ℕ) : Below (max n m) c := fun j hj => h.1 j (le_trans (le_max_left _ _) hj)
  cases e with
  | start j a =>
    obtain ⟨-, rfl⟩ := step_start.mp hstep
    exact ⟨below_update (hmore _) (.inl (le_max_right n (j + 1))), fun q hq =>
      h.2 q (le_trans (le_max_left _ _) hq)⟩
  | advance j o =>
    obtain ⟨s, i, k, ht, rfl⟩ := step_advance.mp hstep
    have hbound : bound c (.advance j o) = beyond (process i) := by
      change beyond ((pending c j).bind process) = _
      rw [pending_eq ht, Option.bind_some]
    rw [hbound]
    refine ⟨below_update (hmore _) (.inl (Nat.lt_of_not_le fun hj => ?_)), fun q hq => ?_⟩
    · rw [hmore _ j hj] at ht
      cases ht
    · obtain ⟨hmemory, hsent⟩ := kept_after (w := c.world) (o := o) (ne_of_beyond hq)
      obtain ⟨hempty, hnone⟩ := h.2 q (le_trans (le_max_left _ _) hq)
      exact ⟨hmemory.trans hempty, hsent.trans hnone⟩
  | stop j =>
    obtain ⟨-, rfl⟩ := step_stop.mp hstep
    exact ⟨below_update (hmore _) (.inr rfl), fun q hq => h.2 q (le_trans (le_max_left _ _) hq)⟩
  | outside d =>
    obtain ⟨w, hd, rfl⟩ := step_outside.mp hstep
    refine ⟨hmore _, fun q hq => ?_⟩
    obtain ⟨hmemory, hsent⟩ := kept_outside hd (ne_of_beyond hq)
    obtain ⟨hempty, hnone⟩ := h.2 q (le_trans (le_max_left _ _) hq)
    exact ⟨hmemory.trans hempty, hsent.trans hnone⟩

theorem idle_empty {users : List User} : Idle n (empty users) :=
  ⟨fun _ _ => rfl, fun _ _ => ⟨rfl, rfl⟩⟩

theorem run_idle {users : List User} (hrun : run system.step (empty users) es = some c) :
    ∃ n, Idle n c := by
  refine run_preserves (I := fun c => ∃ n, Idle n c) ?_ ⟨0, idle_empty⟩ hrun
  rintro c e c' ⟨n, h⟩ hstep
  exact ⟨_, step_idle h hstep⟩

theorem idle_along (h : Idle n c) (hbound : Along system.step (fun c e => bound c e ≤ n) c es)
    (hrun : run system.step c es = some c') : Idle n c' := by
  refine run_invariant (fun c e c' h he hstep => ?_) h hbound hrun
  have hnext := step_idle h hstep
  rwa [max_eq_left he] at hnext

def copyFree (n : ℕ) (c : Race) (u : String) : Bool :=
  ((List.range n).all fun p =>
    (((c.world.memory p).lookup u).all fun e =>
      !e.user.active || decide (e.expires ≤ c.world.now)) &&
    ((c.world.sent p).all fun
      | .set id user => decide (id ≠ u) || !user.active
      | .del _ => true) &&
    (view seen (active c) p).all fun x => decide (x.1 ≠ u) || !x.2.active) &&
  (c.world.redis u).all fun e => !e.value.active || decide (e.expiresAt ≤ c.world.now)

theorem noCopies_of_copyFree (hidle : Idle n c) (h : copyFree n c u = true) : NoCopies c u := by
  simp only [copyFree, Bool.and_eq_true, List.all_eq_true, List.mem_range, Option.all_eq_true] at h
  obtain ⟨hbelow, hredis⟩ := h
  refine ⟨⟨fun p e he hactive => ?_, fun e he hactive => ?_, fun p user hmem => ?_⟩,
    fun j user hread => ?_⟩
  · have hp : p < n := by
      by_contra hp
      rw [(hidle.2 p (Nat.le_of_not_lt hp)).1] at he
      cases he
    simpa [hactive] using (hbelow p hp).1.1 e he
  · simpa [hactive] using hredis e he
  · have hp : p < n := by
      by_contra hp
      rw [(hidle.2 p (Nat.le_of_not_lt hp)).2] at hmem
      cases hmem
    simpa using (hbelow p hp).1.2 _ hmem
  · have hj : j < n := by
      by_contra hj
      rw [view, active, hidle.1 j (Nat.le_of_not_lt hj)] at hread
      cases hread
    simpa using (hbelow j hj).2 _ hread

theorem ends_empty {users : List User} : system.Ends Done (empty users) := fun _ _ h => by cases h

/-- Where the database shows no active user, as after the account was deactivated or deleted, nobody
shows the user active any more exactly where no copy of the active user is left. -/
theorem unseen_iff {users : List User} (hrun : run system.step (empty users) es = some c)
    (haway : Inactive c.world u) : Unseen c u ↔ NoCopies c u := by
  have hends : system.Ends Done c := run_ends keeps_handle ends_empty hrun
  obtain ⟨n, hidle⟩ := run_idle hrun
  constructor
  · exact fun h => noCopies_of_unseen hends hidle h haway
  · exact fun h later c' hlater hlast => (run_noCopies hends h hlater hlast).1

/-! ### A suspension beside a cached user -/

instance (w : World) (u : String) : Decidable (Inactive w u) :=
  decidable_of_iff ((w.find u).all (fun user => !user.active) = true)
    (by simp [Inactive, Option.all_eq_true])

instance (u : String) (c : Race) (e : RaceEvent) : Decidable (Away u c e) :=
  inferInstanceAs (Decidable (Inactive c.world u))

def ana : User :=
  ⟨"u1", "ana@example.org", .hogar, .active, .approved, none, some "key", none, none, true, none,
    some "Ana", none, none, false⟩

/-- A guarded request, whose copies expire, and the cancellation of the account. -/
def cancelled : List RaceEvent :=
  [.start 0 (.canActivate 0 "u1"), .advance 0 done, .advance 0 done, .advance 0 done,
    .advance 0 done,
    .outside (.deliver 0), .outside (.pass 40000), .start 1 (.cancelAccountARCO 0 "u1"),
      .advance 1 done,
    .advance 1 done, .advance 1 done]

theorem unseen_iff_cancelled : ∃ c, run system.step (empty [ana]) cancelled = some c ∧
    (1, .changed (.ok ())) ∈ answers system (empty [ana]) cancelled ∧ Inactive c.world "u1" ∧
    Unseen c "u1" := by
  have hseen : (run system.step (empty [ana]) cancelled).map (fun c =>
      (copyFree 2 c "u1", decide (Inactive c.world "u1"))) = some (true, true) := by decide +kernel
  obtain ⟨c, hrun, hall⟩ := Option.map_eq_some_iff.mp hseen
  obtain ⟨hfree, haway⟩ := Prod.mk.inj hall
  have hbound : Along system.step (fun c e => bound c e ≤ 2) (empty [ana]) cancelled := by
    decide +kernel
  have hidle := idle_along idle_empty hbound hrun
  refine ⟨c, hrun, by decide +kernel, of_decide_eq_true haway, ?_⟩
  exact (unseen_iff hrun (of_decide_eq_true haway)).mpr (noCopies_of_copyFree hidle hfree)

def suspended : List RaceEvent :=
  [.start 0 (.canActivate 0 "u1"), .advance 0 done, .advance 0 done, .advance 0 done,
    .advance 0 done,
    .start 1 (.updateUserStatus "u1" ⟨some false, none⟩), .advance 1 done, .advance 1 done]

/-- A lookup and a guarded request that begin after that. -/
def afterwards : List RaceEvent :=
  [.start 2 (.findById 0 "u1"), .advance 2 done, .start 3 (.canActivate 0 "u1"), .advance 3 done]

/-- The user is found active and let in. -/
theorem seen_suspended : ∃ c, run system.step (empty [ana]) suspended = some c ∧
    (1, .changed (.ok ())) ∈ answers system (empty [ana]) suspended ∧ Inactive c.world "u1" ∧
    answers system c afterwards = [(2, .found "u1" (.ok (some ana))),
      (3, .guarded "u1" (.ok { ana with encryptedPrivateKey := none }))] ∧ ¬Unseen c "u1" := by
  have hseen : (run system.step (empty [ana]) suspended).map (fun c =>
      (decide (Inactive c.world "u1"), answers system c afterwards,
        decide (Along system.step (Away "u1") c afterwards),
          (run system.step c afterwards).isSome)) =
      some (true, [(2, .found "u1" (.ok (some ana))),
        (3, .guarded "u1" (.ok { ana with encryptedPrivateKey := none }))], true, true) := by
          decide +kernel
  obtain ⟨c, hrun, hall⟩ := Option.map_eq_some_iff.mp hseen
  simp only [Prod.mk.injEq, decide_eq_true_eq] at hall
  obtain ⟨haway, hanswers, hlater, hsome⟩ := hall
  obtain ⟨c', hlast⟩ := Option.isSome_iff_exists.mp hsome
  refine ⟨c, hrun, by decide +kernel, haway, hanswers, fun h => ?_⟩
  refine h afterwards c' hlater hlast (2, .found "u1" (.ok (some ana))) ?_ ⟨rfl, by decide⟩
  rw [hanswers]
  exact List.mem_cons_self

end Livora.UserCacheRaces
