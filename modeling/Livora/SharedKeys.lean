import Livora.IdempotentRuns

/-! Whose responses a request may be answered with. The interceptor stores a response under the
idempotency key alone: any user who sends the key, to any route, is answered from it. What the
requests of a set of keys are answered does not depend on the requests with other keys. -/

namespace Livora.SharedKeys

open IdempotencyInterceptor IdempotentRuns TransitionRuns

variable {g g' : Gateway} {e : Event} {i j : ℕ} {c c' : Call} {key name : String}
  {r : Request} {entry : Option Entry} {d : Completion} {keys : String → Bool}

def Among (keys : String → Bool) (r : Request) : Bool := r.redisKey.all keys

/-- What the requests with one of the keys, or with none, see of the gateway. -/
def project (keys : String → Bool) (g : Gateway) : Gateway where
  now := g.now
  redis name := if keys name then g.redis name else none
  calls j := (g.calls j).filter fun c => Among keys c.request
  completions := g.completions.filter fun d => Among keys d.request

/-- The event is about a request with one of the keys, or with none, or time passes. -/
def sees (keys : String → Bool) (g : Gateway) : Event → Bool
  | .enter _ request => Among keys request
  | .read j _ | .claim j _ | .complete j _ | .store j _ | .drop j _ | .crash j =>
    (g.calls j).any fun c => Among keys c.request
  | .pass _ => true

def seen (keys : String → Bool) (es : List Event) : List Event :=
  trace step (fun g e => if sees keys g e then some e else none) Gateway.idle es

theorem request_intercept : (intercept r).request = r := by
  unfold intercept
  split
  · split <;> rfl
  · rfl

theorem request_afterGet {answer : Answer} : (afterGet g c key answer).request = c.request := by
  unfold afterGet
  split
  · split <;> rfl
  · rfl

theorem among_of_redisKey (h : r.redisKey = some name) : Among keys r = keys name := by
  rw [Among, h, Option.all_some]

theorem project_calls (hj : g.calls j = some c) (hc : Among keys c.request = true) :
    (project keys g).calls j = some c :=
  Option.filter_eq_some_iff.mpr ⟨hj, hc⟩

theorem project_get (hname : keys name = true) : (project keys g).get name = g.get name := by
  have hredis : (project keys g).redis name = g.redis name := if_pos hname
  rw [Gateway.get, hredis]
  rfl

theorem project_put (hc : Among keys c.request = true) :
    project keys (g.put j c) = (project keys g).put j c := by
  unfold project Gateway.put
  congr 1
  funext a
  by_cases ha : a = j
  · subst ha
    simp [hc]
  · simp [ha]

theorem project_put_hidden (hc : Among keys c.request = false)
    (hj : ∀ c, g.calls j = some c → Among keys c.request = false) :
    project keys (g.put j c) = project keys g := by
  unfold project Gateway.put
  congr 1
  funext a
  by_cases ha : a = j
  · subst ha
    cases hold : g.calls a with
    | none => simp [hc]
    | some c' =>
      dsimp only
      rw [Function.update_self, Option.filter_some, Option.filter_some, hc, hj c' hold]
      rfl
  · simp [ha]

theorem project_write (hkey : keys key = true) :
    project keys (g.write key entry) = (project keys g).write key entry := by
  unfold project Gateway.write
  congr 1
  funext name
  by_cases hname : name = key
  · subst hname
    simp [hkey]
  · simp [hname]

theorem project_write_hidden (hkey : keys key = false) :
    project keys (g.write key entry) = project keys g := by
  unfold project Gateway.write
  congr 1
  funext name
  by_cases hname : name = key
  · subst hname
    simp [hkey]
  · simp [hname]

theorem project_complete (hd : Among keys d.request = true) :
    project keys (g.complete d) = (project keys g).complete d := by
  unfold project Gateway.complete
  congr 1
  exact List.filter_cons_of_pos hd

theorem project_complete_hidden (hd : Among keys d.request = false) :
    project keys (g.complete d) = project keys g := by
  unfold project Gateway.complete
  congr 1
  exact List.filter_cons_of_neg (by simpa using hd)

/-! ### Requests that are seen -/

theorem project_afterGet {answer : Answer} (hkey : keys key = true) :
    afterGet (project keys g) c key answer = afterGet g c key answer := by
  cases answer with
  | served =>
    unfold afterGet
    dsimp only
    rw [project_get hkey]
  | failed => rfl
  | lost => rfl

theorem project_set {value : Value} {ttlSeconds : ℕ} (hkey : keys key = true) :
    project keys (g.set key value ttlSeconds) = (project keys g).set key value ttlSeconds :=
  project_write hkey

theorem project_setNX {value : Value} {ttlSeconds : ℕ} (hkey : keys key = true) :
    project keys (g.setNX key value ttlSeconds) = (project keys g).setNX key value ttlSeconds := by
  unfold Gateway.setNX
  rw [project_get hkey]
  split
  · exact project_set hkey
  · rfl

theorem project_afterSetNX {answer : Answer} (hc : Among keys c.request = true)
    (hkey : keys key = true) :
    project keys (afterSetNX g j c key answer) = afterSetNX (project keys g) j c key answer := by
  have hclaimed {c' : Call} (hrequest : c'.request = c.request) :
      project keys ((g.setNX key .processing 60).put j c') =
        ((project keys g).setNX key .processing 60).put j c' := by
    rw [project_put (by rw [hrequest]; exact hc), project_setNX hkey]
  cases answer with
  | served =>
    unfold afterSetNX
    dsimp only
    rw [project_get hkey]
    split
    · exact hclaimed rfl
    · exact project_put hc
  | failed => exact project_put hc
  | lost => exact hclaimed rfl

theorem project_afterHandle {outcome : Outcome} (hc : Among keys c.request = true) :
    project keys (afterHandle g j c key outcome) =
      afterHandle (project keys g) j c key outcome := by
  cases outcome with
  | succeeded statusCode body =>
    have hcomplete := project_complete (g := g)
      (d := ⟨j, c.request, persist statusCode body, g.now⟩) hc
    refine (project_put ?_).trans ?_
    · exact hc
    · rw [hcomplete]
      rfl
  | failed => exact project_put hc

theorem project_afterSet {response : Stored} {answer : Answer} (hkey : keys key = true) :
    project keys (afterSet g key response answer) =
      afterSet (project keys g) key response answer := by
  unfold afterSet
  split
  · rfl
  · exact project_set hkey

theorem project_afterDel {answer : Answer} (hkey : keys key = true) :
    project keys (afterDel g key answer) = afterDel (project keys g) key answer := by
  unfold afterDel
  split
  · rfl
  · exact project_write hkey

theorem keys_eq (keys : String → Bool) (h : Sound g) (hj : g.calls j = some c)
    (hkey : c.phase.key = some key) :
    Among keys c.request = keys key :=
  among_of_redisKey (h.keyed j c key hj hkey)

theorem project_seen (h : Sound g) (hs : step g e = some g') (hsees : sees keys g e = true) :
    step (project keys g) e = some (project keys g') := by
  have hamong {j : ℕ} {c : Call} (hj : g.calls j = some c)
      (hany : ((g.calls j).any fun c => Among keys c.request) = true) :
      Among keys c.request = true := by
    rwa [hj, Option.any_some] at hany
  cases step_iff.mp hs with
  | enter j request hj hg =>
    subst hg
    have hrequest : Among keys (intercept request).request = true := by
      rw [request_intercept]
      exact hsees
    have hnone : (project keys g).calls j = none := by
      change (g.calls j).filter _ = none
      rw [hj]
      rfl
    exact step_iff.mpr (.enter j request hnone (project_put hrequest))
  | read j answer c key hj hphase hg =>
    subst hg
    have hc := hamong hj hsees
    have hkey : keys key = true := by
      rw [← keys_eq keys h hj (by rw [hphase, Phase.key]), hc]
    refine step_iff.mpr (.read j answer c key (project_calls hj hc) hphase ?_)
    rw [project_afterGet hkey]
    exact project_put (by rw [request_afterGet]; exact hc)
  | claim j answer c key hj hphase hg =>
    subst hg
    have hc := hamong hj hsees
    have hkey : keys key = true := by
      rw [← keys_eq keys h hj (by rw [hphase, Phase.key]), hc]
    exact step_iff.mpr (.claim j answer c key (project_calls hj hc) hphase
      (project_afterSetNX hc hkey))
  | complete j outcome c key hj hphase hg =>
    subst hg
    have hc := hamong hj hsees
    exact step_iff.mpr (.complete j outcome c key (project_calls hj hc) hphase
      (project_afterHandle hc))
  | unguarded j outcome c hj hphase hg =>
    subst hg
    have hc := hamong hj hsees
    exact step_iff.mpr (.unguarded j outcome c (project_calls hj hc) hphase (project_put hc))
  | store j answer c key response hj hphase hg =>
    subst hg
    have hc := hamong hj hsees
    have hkey : keys key = true := by
      rw [← keys_eq keys h hj (by rw [hphase, Phase.key]), hc]
    refine step_iff.mpr (.store j answer c key response (project_calls hj hc) hphase ?_)
    rw [← project_afterSet hkey]
    exact project_put hc
  | drop j answer c key hj hphase hg =>
    subst hg
    have hc := hamong hj hsees
    have hkey : keys key = true := by
      rw [← keys_eq keys h hj (by rw [hphase, Phase.key]), hc]
    refine step_iff.mpr (.drop j answer c key (project_calls hj hc) hphase ?_)
    rw [← project_afterDel hkey]
    exact project_put hc
  | crash j c hj hg =>
    subst hg
    have hc := hamong hj hsees
    exact step_iff.mpr (.crash j c (project_calls hj hc) (project_put hc))
  | pass ms hg =>
    subst hg
    exact step_iff.mpr (.pass ms rfl)

/-! ### Requests that are not -/

theorem hidden_put (hj : g.calls j = some c) (hc : Among keys c.request = false)
    (hrequest : c'.request = c.request) : project keys (g.put j c') = project keys g := by
  refine project_put_hidden (by rw [hrequest]; exact hc) fun d hd => ?_
  rw [hj] at hd
  cases hd
  exact hc

theorem hidden_setNX {value : Value} {ttlSeconds : ℕ} (hkey : keys key = false) :
    project keys (g.setNX key value ttlSeconds) = project keys g := by
  unfold Gateway.setNX
  split
  · exact project_write_hidden hkey
  · rfl

theorem calls_setNX {value : Value} {ttlSeconds : ℕ} :
    (g.setNX key value ttlSeconds).calls = g.calls := by
  unfold Gateway.setNX
  split <;> rfl

theorem hidden_afterSetNX {answer : Answer} (hj : g.calls j = some c)
    (hc : Among keys c.request = false) (hkey : keys key = false) :
    project keys (afterSetNX g j c key answer) = project keys g := by
  have hclaimed {c' : Call} (hrequest : c'.request = c.request) :
      project keys ((g.setNX key .processing 60).put j c') = project keys g := by
    rw [hidden_put (by rw [calls_setNX]; exact hj) hc hrequest, hidden_setNX hkey]
  cases answer with
  | served =>
    unfold afterSetNX
    dsimp only
    split
    · exact hclaimed rfl
    · exact hidden_put hj hc rfl
  | failed => exact hidden_put hj hc rfl
  | lost => exact hclaimed rfl

theorem hidden_afterHandle {outcome : Outcome} (hj : g.calls j = some c)
    (hc : Among keys c.request = false) :
    project keys (afterHandle g j c key outcome) = project keys g := by
  cases outcome with
  | succeeded statusCode body =>
    have hcomplete := project_complete_hidden (g := g)
      (d := ⟨j, c.request, persist statusCode body, g.now⟩) hc
    refine (hidden_put (g := g.complete _) hj hc ?_).trans hcomplete
    rfl
  | failed => exact hidden_put hj hc rfl

theorem project_unseen (h : Sound g) (hs : step g e = some g') (hsees : sees keys g e = false) :
    project keys g' = project keys g := by
  have hamong {j : ℕ} {c : Call} (hj : g.calls j = some c)
      (hany : ((g.calls j).any fun c => Among keys c.request) = false) :
      Among keys c.request = false := by
    rwa [hj, Option.any_some] at hany
  cases step_iff.mp hs with
  | enter j request hj hg =>
    subst hg
    refine project_put_hidden ?_ fun c hc => ?_
    · rw [request_intercept]
      exact hsees
    · rw [hj] at hc
      cases hc
  | read j answer c key hj hphase hg =>
    subst hg
    exact hidden_put hj (hamong hj hsees) request_afterGet
  | claim j answer c key hj hphase hg =>
    subst hg
    have hc := hamong hj hsees
    exact hidden_afterSetNX hj hc (by rw [← keys_eq keys h hj (by rw [hphase, Phase.key]), hc])
  | complete j outcome c key hj hphase hg =>
    subst hg
    exact hidden_afterHandle hj (hamong hj hsees)
  | unguarded j outcome c hj hphase hg =>
    subst hg
    exact hidden_put hj (hamong hj hsees) rfl
  | store j answer c key response hj hphase hg =>
    subst hg
    have hc := hamong hj hsees
    have hkey : keys key = false := by
      rw [← keys_eq keys h hj (by rw [hphase, Phase.key]), hc]
    unfold afterSet
    split
    · exact hidden_put hj hc rfl
    · refine (hidden_put (g := g.set key (.response response) 86400) hj hc ?_).trans
        (project_write_hidden hkey)
      rfl
  | drop j answer c key hj hphase hg =>
    subst hg
    have hc := hamong hj hsees
    have hkey : keys key = false := by
      rw [← keys_eq keys h hj (by rw [hphase, Phase.key]), hc]
    unfold afterDel
    split
    · exact hidden_put hj hc rfl
    · refine (hidden_put (g := g.write key none) hj hc ?_).trans (project_write_hidden hkey)
      rfl
  | crash j c hj hg =>
    subst hg
    exact hidden_put hj (hamong hj hsees) rfl
  | pass ms hg => cases hsees

/-! ### Whole runs -/

theorem project_idle : project keys Gateway.idle = Gateway.idle := by
  unfold project Gateway.idle
  simp

/-- The events that are seen are a run of their own. -/
theorem seen_run {es : List Event} (hrun : run step Gateway.idle es = some g) :
    run step Gateway.idle (seen keys es) = some (project keys g) := by
  have h : run step (project keys Gateway.idle) (seen keys es) = some (project keys g) :=
    run_project (p := project keys) (I := Sound) (fun _ _ _ h hs => sound_step h hs)
      (fun _ _ _ h hs hsees => project_seen h hs hsees)
      (fun _ _ _ h hs hsees => project_unseen h hs hsees) sound_idle hrun
  rwa [project_idle] at h

/-- A stored response is returned to a request only with the idempotency key of the request that
produced it; and where two runs show the same events of the requests with some keys, or with none,
these are in the same phases and have the same answers. -/
theorem answered_by_key {es fs : List Event} {h : Gateway}
    (hes : run step Gateway.idle es = some g) (hfs : run step Gateway.idle fs = some h)
    (hsame : seen keys es = seen keys fs) :
    (∀ j c statusCode content, g.calls j = some c → c.reply = some (.cached statusCode content) →
      ∃ d ∈ g.completions, d.request.idempotencyKey = c.request.idempotencyKey ∧
        c.request.idempotencyKey ≠ none ∧ replay d.response = .cached statusCode content) ∧
    ∀ j c, Among keys c.request = true → (g.calls j = some c ↔ h.calls j = some c) := by
  constructor
  · intro j c statusCode content hj hreply
    rcases (sound_run hes).replied j c _ hj hreply with ⟨_, hown⟩ | hconflict | hdown |
      ⟨hrequired, -⟩ | ⟨name, s, hname, ⟨d, hd, hdname, rfl⟩, hreplay⟩
    · cases hown
    · cases hconflict
    · cases hdown
    · cases hrequired
    · obtain ⟨key, hkey, rfl⟩ := Option.map_eq_some_iff.mp hname
      have hdkey := idempotencyKey_of_redisKey hdname
      exact ⟨d, hd, hdkey.trans hkey.symm, by rw [hkey]; exact Option.some_ne_none key,
        hreplay.symm⟩
  · intro j c hc
    have hproject : project keys g = project keys h := by
      have hg : run step Gateway.idle (seen keys es) = some (project keys g) := seen_run hes
      rw [hsame, seen_run hfs] at hg
      exact (Option.some.inj hg).symm
    have hcalls : (project keys g).calls j = (project keys h).calls j := by rw [hproject]
    have hiff {g : Gateway} : (project keys g).calls j = some c ↔ g.calls j = some c :=
      ⟨fun hj => (Option.filter_eq_some_iff.mp hj).1, fun hj => project_calls hj hc⟩
    rw [← hiff (g := g), ← hiff (g := h), hcalls]

/-! ### Two users -/

def withAnother : List Event :=
  [.enter 0 (payment "another" "/redemptions" "theirs"), .read 0 .served, .claim 0 .served,
    .enter 1 (payment "user" "/transfers" "mine"), .read 1 .served, .claim 1 .served,
    .complete 0 (.succeeded 201 (some "theirs")), .complete 1 (.succeeded 201 (some "mine")),
    .store 1 .served, .store 0 .served, .enter 2 (payment "user" "/transfers" "mine"),
    .read 2 .served]

def withoutAnother : List Event :=
  [.enter 1 (payment "user" "/transfers" "mine"), .read 1 .served, .claim 1 .served,
    .complete 1 (.succeeded 201 (some "mine")), .store 1 .served,
    .enter 2 (payment "user" "/transfers" "mine"), .read 2 .served]

def mine (name : String) : Bool := name == redisKey "mine"

theorem answered_by_key_mine : ∃ g h, run step Gateway.idle withAnother = some g ∧
    run step Gateway.idle withoutAnother = some h ∧
    (∀ j c statusCode content, g.calls j = some c → c.reply = some (.cached statusCode content) →
      ∃ d ∈ g.completions, d.request.idempotencyKey = c.request.idempotencyKey ∧
        c.request.idempotencyKey ≠ none ∧ replay d.response = .cached statusCode content) ∧
    ∀ j c, Among mine c.request = true → (g.calls j = some c ↔ h.calls j = some c) := by
  obtain ⟨g, hg⟩ := Option.isSome_iff_exists.mp
    (show (run step Gateway.idle withAnother).isSome = true by decide +kernel)
  obtain ⟨h, hh⟩ := Option.isSome_iff_exists.mp
    (show (run step Gateway.idle withoutAnother).isSome = true by decide +kernel)
  exact ⟨g, h, hg, hh, answered_by_key hg hh (by decide +kernel)⟩

def sharedKey : List Event :=
  [.enter 0 (payment "user" "/redemptions" "key"), .read 0 .served, .claim 0 .served,
    .complete 0 (.succeeded 201 (some "receipt of the user")), .store 0 .served,
    .enter 1 (payment "another" "/transfers" "key"), .read 1 .served]

/-- The other user is answered with the response of the first one; had the first one used another
key, the same events would have left the other user without an answer so far. -/
theorem cached_for_another :
    (∃ g c d, run step Gateway.idle sharedKey = some g ∧ g.calls 1 = some c ∧
      d ∈ g.completions ∧ c.reply = some (replay d.response) ∧
      d.request.userId ≠ c.request.userId ∧ d.request.route ≠ c.request.route) ∧
    ∃ g c, run step Gateway.idle (.enter 0 (payment "user" "/redemptions" "other") ::
      sharedKey.tail) = some g ∧ g.calls 1 = some c ∧ c.reply = none := by
  constructor
  · have hrun : (run step Gateway.idle sharedKey).map (fun g => (g.calls 1, g.completions)) =
        some (some ⟨payment "another" "/transfers" "key", .finished,
            some (.cached 201 (.body "receipt of the user"))⟩,
          [⟨0, payment "user" "/redemptions" "key", ⟨201, some "receipt of the user"⟩, 0⟩]) := by
      decide +kernel
    obtain ⟨g, hg, hpair⟩ := Option.map_eq_some_iff.mp hrun
    obtain ⟨hcall, hcompletions⟩ := Prod.mk.inj hpair
    refine ⟨g, _, ⟨0, payment "user" "/redemptions" "key", ⟨201, some "receipt of the user"⟩, 0⟩,
      hg, hcall, ?_, rfl, ?_, ?_⟩
    · rw [hcompletions]
      exact List.mem_singleton_self _
    · decide
    · decide
  · have hrun : (run step Gateway.idle (.enter 0 (payment "user" "/redemptions" "other") ::
        sharedKey.tail)).map (fun g => g.calls 1) =
          some (some ⟨payment "another" "/transfers" "key",
            .claiming (redisKey "key"), none⟩) := by
      decide +kernel
    obtain ⟨g, hg, hcall⟩ := Option.map_eq_some_iff.mp hrun
    exact ⟨g, _, hg, hcall, rfl⟩

end Livora.SharedKeys
