import Livora.IdempotencyInterceptor
import Mathlib.Data.List.Pairwise

/-! How often the requests of one idempotency key run their handler, and what the others are
answered. The marker lasts a minute and the response is stored after it has been sent; the
handler succeeds once a day at most, along every run in which no marker runs out on its
request and every response is stored. -/

namespace Livora.IdempotentRuns

open IdempotencyInterceptor TransitionRuns

variable {g g' : Gateway} {e : Event} {i j : ℕ} {c c' : Call} {key name : String} {d : Completion}
  {r : Request} {entry : Option Entry}

/-- The life of a stored response. -/
def dayMs : ℕ := 1000 * 86400

/-- The request has set the marker and may still act on its key. -/
def Engaged (g : Gateway) (j : ℕ) (key : String) : Prop :=
  ∃ c, g.calls j = some c ∧ c.phase.held = some key

/-- The response of the request has been sent and is still to be stored. -/
def Storing (g : Gateway) (j : ℕ) (key : String) : Prop :=
  ∃ c response, g.calls j = some c ∧ c.phase = .storing key response

/-- Redis answers reads and claims and takes the responses, no process stops with a response still
to be stored, and no marker runs out on its request. -/
def InTime (g : Gateway) : Event → Prop
  | .read _ answer => answer = .served
  | .claim _ answer => answer = .served
  | .store _ answer => answer ≠ .failed
  | .crash j => ∀ key, ¬ Storing g j key
  | .pass ms => ∀ j key entry, Engaged g j key → g.redis key = some entry →
      g.now + ms < entry.expiresAt
  | _ => True

/-! ### One request at a time -/

/-- Whoever is engaged is alone with its key, the marker is in force, and what has succeeded within
a day is stored or about to be. -/
structure Exclusive (g : Gateway) : Prop where
  alone : ∀ i j key, Engaged g i key → Engaged g j key → i = j
  marked : ∀ j key, Engaged g j key → ∃ t, g.redis key = some ⟨.processing, t⟩ ∧ g.now < t
  past : ∀ d ∈ g.completions, d.completedAt ≤ g.now
  recent : ∀ d ∈ g.completions, ∀ key, d.request.redisKey = some key →
    d.completedAt + dayMs ≤ g.now ∨
      (∃ s t, g.redis key = some ⟨.response s, t⟩ ∧ d.completedAt + dayMs ≤ t) ∨
      ∃ j, Storing g j key
  apart : g.completions.Pairwise fun d d' => d.request.redisKey = d'.request.redisKey →
    d'.completedAt + dayMs ≤ d.completedAt

theorem Storing.engaged (h : Storing g j key) : Engaged g j key := by
  obtain ⟨c, response, hj, hphase⟩ := h
  exact ⟨c, hj, by rw [hphase, Phase.held]⟩

theorem engaged_put : Engaged (g.put j c) i key ↔
    if i = j then c.phase.held = some key else Engaged g i key := by
  unfold Engaged
  rw [put_calls]
  split <;> simp

theorem storing_put : Storing (g.put j c) i key ↔
    if i = j then ∃ response, c.phase = .storing key response else Storing g i key := by
  unfold Storing
  rw [put_calls]
  split <;> simp

theorem Exclusive.put (h : Exclusive g) (hstoring : ∀ key, ¬ Storing g j key)
    (hheld : ∀ key, c.phase.held = some key → Engaged g j key) : Exclusive (g.put j c) := by
  have hold {a : ℕ} {key : String} (ha : Engaged (g.put j c) a key) : Engaged g a key := by
    rw [engaged_put] at ha
    split at ha
    · subst_vars
      exact hheld key ha
    · exact ha
  refine ⟨fun a b key ha hb => h.alone a b key (hold ha) (hold hb),
    fun a key ha => h.marked a key (hold ha), h.past, ?_, h.apart⟩
  intro d hd key hkey
  rcases h.recent d hd key hkey with hlate | hstored | ⟨a, ha⟩
  · exact .inl hlate
  · exact .inr (.inl hstored)
  · refine .inr (.inr ⟨a, storing_put.mpr ?_⟩)
    rw [if_neg (by rintro rfl; exact hstoring key ha)]
    exact ha

theorem redis_write : ((g.write key entry).put j c).redis name =
    if name = key then entry else g.redis name := by
  change Function.update g.redis key entry name = _
  by_cases hname : name = key
  · subst hname
    rw [if_pos rfl, Function.update_self]
  · rw [if_neg hname, Function.update_of_ne hname]

theorem engaged_write : Engaged ((g.write key entry).put j c) i name ↔
    if i = j then c.phase.held = some name else Engaged g i name := engaged_put

theorem storing_write : Storing ((g.write key entry).put j c) i name ↔
    if i = j then ∃ response, c.phase = .storing name response else Storing g i name := storing_put

theorem Exclusive.write (h : Exclusive g) (halone : ∀ i, Engaged g i key → i = j)
    (hfrom : ∀ name, Engaged g j name → name = key)
    (hto : ∀ name, c.phase.held = some name →
      name = key ∧ ∃ t, entry = some ⟨.processing, t⟩ ∧ g.now < t)
    (hrecent : ∀ d ∈ g.completions, d.request.redisKey = some key →
      d.completedAt + dayMs ≤ g.now ∨
        ∃ s t, entry = some ⟨.response s, t⟩ ∧ d.completedAt + dayMs ≤ t) :
    Exclusive ((g.write key entry).put j c) := by
  constructor
  · intro a b name ha hb
    rw [engaged_write] at ha hb
    split at ha <;> split at hb
    · omega
    · obtain ⟨rfl, -⟩ := hto name ha
      have := halone b hb
      omega
    · obtain ⟨rfl, -⟩ := hto name hb
      have := halone a ha
      omega
    · exact h.alone a b name ha hb
  · intro a name ha
    rw [redis_write]
    rw [engaged_write] at ha
    split at ha
    · obtain ⟨rfl, hentry⟩ := hto name ha
      rw [if_pos rfl]
      exact hentry
    · rename_i haj
      rw [if_neg (by rintro rfl; exact haj (halone a ha))]
      exact h.marked a name ha
  · exact h.past
  · intro d hd name hname
    rw [redis_write]
    split
    · subst_vars
      exact (hrecent d hd hname).imp_right .inl
    · rename_i hne
      rcases h.recent d hd name hname with hlate | hstored | ⟨a, ha⟩
      · exact .inl hlate
      · exact .inr (.inl hstored)
      · refine .inr (.inr ⟨a, storing_write.mpr ?_⟩)
        rw [if_neg (by rintro rfl; exact hne (hfrom name ha.engaged))]
        exact ha
  · exact h.apart

theorem Exclusive.expired (h : Exclusive g) (hnone : ∀ s t, g.redis key = some ⟨.response s, t⟩ →
      t ≤ g.now) (hstoring : ∀ i, ¬ Storing g i key) (hd : d ∈ g.completions)
    (hkey : d.request.redisKey = some key) : d.completedAt + dayMs ≤ g.now := by
  rcases h.recent d hd key hkey with hlate | ⟨s, t, hstored, hlater⟩ | ⟨i, hi⟩
  · exact hlate
  · have := hnone s t hstored
    omega
  · exact absurd hi (hstoring i)

theorem Exclusive.expired_of_engaged (h : Exclusive g) (hj : Engaged g j key)
    (hstoring : ¬ Storing g j key) (hd : d ∈ g.completions) (hkey : d.request.redisKey = some key) :
    d.completedAt + dayMs ≤ g.now := by
  obtain ⟨t, hmarked, -⟩ := h.marked j key hj
  refine h.expired (fun s t' hstored => ?_) (fun i hi => ?_) hd hkey
  · rw [hmarked] at hstored
    cases hstored
  · rw [h.alone i j key hi.engaged hj] at hi
    exact hstoring hi

theorem Exclusive.complete (h : Exclusive g) {response : Stored} (hj : g.calls j = some c)
    (hphase : c.phase = .handling key) (hkey : c.request.redisKey = some key)
    (hcall : c'.phase = .storing key response) (hd : d.request = c.request)
    (hnow : d.completedAt = g.now) : Exclusive ((g.complete d).put j c') := by
  have hengaged : Engaged g j key := ⟨c, hj, by rw [hphase, Phase.held]⟩
  have hidle {name : String} : ¬ Storing g j name := by
    rintro ⟨cj, response', hj', hphase'⟩
    rw [hj] at hj'
    cases hj'
    rw [hphase] at hphase'
    cases hphase'
  have hold {a : ℕ} {name : String} (ha : Engaged ((g.complete d).put j c') a name) :
      Engaged g a name := by
    rw [engaged_put] at ha
    split at ha
    · subst_vars
      rw [hcall, Phase.held] at ha
      cases ha
      exact hengaged
    · exact ha
  refine ⟨fun a b name ha hb => h.alone a b name (hold ha) (hold hb),
    fun a name ha => h.marked a name (hold ha), ?_, ?_, List.pairwise_cons.mpr ⟨?_, h.apart⟩⟩
  · intro d' hd'
    rcases List.mem_cons.mp hd' with rfl | hd'
    · exact Nat.le_of_eq hnow
    · exact h.past d' hd'
  · intro d' hd' name hname
    rcases List.mem_cons.mp hd' with rfl | hd'
    · rw [hd, hkey] at hname
      cases hname
      refine .inr (.inr ⟨j, storing_put.mpr ?_⟩)
      rw [if_pos rfl]
      exact ⟨response, hcall⟩
    · rcases h.recent d' hd' name hname with hlate | hstored | ⟨a, ha⟩
      · exact .inl hlate
      · exact .inr (.inl hstored)
      · refine .inr (.inr ⟨a, storing_put.mpr ?_⟩)
        rw [if_neg (by rintro rfl; exact hidle ha)]
        exact ha
  · intro d' hd' hsame
    rw [hd, hkey] at hsame
    rw [hnow]
    exact h.expired_of_engaged hengaged hidle hd' hsame.symm

theorem Exclusive.pass (h : Exclusive g) {ms : ℕ} (hin : InTime g (.pass ms)) :
    Exclusive { g with now := g.now + ms } := by
  refine ⟨h.alone, fun j key hj => ?_, fun d hd => ?_, fun d hd key hkey => ?_, h.apart⟩
  · obtain ⟨t, hmarked, -⟩ := h.marked j key hj
    exact ⟨t, hmarked, hin j key _ hj hmarked⟩
  · have := h.past d hd
    change d.completedAt ≤ g.now + ms
    omega
  · rcases h.recent d hd key hkey with hlate | hstored
    · left
      change d.completedAt + dayMs ≤ g.now + ms
      omega
    · exact .inr hstored

/-! ### Keys and responses -/

/-- The response is that of a success under the key. -/
def Recorded (g : Gateway) (key : String) (response : Stored) : Prop :=
  ∃ d ∈ g.completions, d.request.redisKey = some key ∧ d.response = response

def Answered (g : Gateway) (r : Request) (reply : Reply) : Prop :=
  (∃ outcome, reply = .own outcome) ∨ reply = conflict ∨ reply = unavailable ∨
    (reply = keyRequired ∧ r.redisKey = none) ∨
    ∃ key s, r.redisKey = some key ∧ Recorded g key s ∧ reply = replay s

/-- A request goes by its own key, and what is stored, about to be stored or answered from the
store has been the response of a success under that key. -/
structure Sound (g : Gateway) : Prop where
  keyed : ∀ j c key, g.calls j = some c → c.phase.key = some key → c.request.redisKey = some key
  entries : ∀ key s t, g.redis key = some ⟨.response s, t⟩ → Recorded g key s
  storing : ∀ j c key s, g.calls j = some c → c.phase = .storing key s → Recorded g key s
  replied : ∀ j c reply, g.calls j = some c → c.reply = some reply → Answered g c.request reply

theorem Recorded.later {s : Stored} (h : Recorded g key s)
    (hmem : ∀ d ∈ g.completions, d ∈ g'.completions) : Recorded g' key s := by
  obtain ⟨d, hd, hkey, hresponse⟩ := h
  exact ⟨d, hmem d hd, hkey, hresponse⟩

theorem Answered.later {reply : Reply} (h : Answered g r reply)
    (hmem : ∀ d ∈ g.completions, d ∈ g'.completions) : Answered g' r reply := by
  rcases h with hown | hconflict | hdown | hrequired | ⟨key, s, hkey, hs, hreply⟩
  · exact .inl hown
  · exact .inr (.inl hconflict)
  · exact .inr (.inr (.inl hdown))
  · exact .inr (.inr (.inr (.inl hrequired)))
  · exact .inr (.inr (.inr (.inr ⟨key, s, hkey, hs.later hmem, hreply⟩)))

theorem Sound.put (h : Sound g)
    (hkeyed : ∀ key, c.phase.key = some key → c.request.redisKey = some key)
    (hstoring : ∀ key s, c.phase = .storing key s → Recorded g key s)
    (hreplied : ∀ reply, c.reply = some reply → Answered g c.request reply) :
    Sound (g.put j c) := by
  refine ⟨fun a ca key ha => ?_, h.entries, fun a ca key s ha => ?_, fun a ca reply ha => ?_⟩
  · rw [put_calls] at ha
    split at ha
    · cases ha
      exact hkeyed key
    · exact h.keyed a ca key ha
  · rw [put_calls] at ha
    split at ha
    · cases ha
      exact hstoring key s
    · exact h.storing a ca key s ha
  · rw [put_calls] at ha
    split at ha
    · cases ha
      exact hreplied reply
    · exact h.replied a ca reply ha

theorem Sound.phase (h : Sound g) (hj : g.calls j = some c) (hrequest : c'.request = c.request)
    (hreply : c'.reply = c.reply) (hkeyed : ∀ key, c'.phase.key = some key → c.phase.key = some key)
    (hstoring : ∀ key s, c'.phase ≠ .storing key s) : Sound (g.put j c') := by
  refine h.put (fun key hkey => ?_) (fun key s hs => absurd hs (hstoring key s)) fun reply hr => ?_
  · rw [hrequest]
    exact h.keyed j c key hj (hkeyed key hkey)
  · rw [hreply] at hr
    rw [hrequest]
    exact h.replied j c reply hj hr

theorem Sound.answer (h : Sound g) {reply : Reply} (hreply : Answered g c.request reply) :
    Sound (g.put j (c.answer reply)) := by
  refine h.put (fun key hkey => by cases hkey) (fun key s hs => by cases hs) fun other hr => ?_
  cases hr
  exact hreply

theorem Sound.write (h : Sound g)
    (hentry : ∀ s t, entry = some ⟨.response s, t⟩ → Recorded g key s) :
    Sound (g.write key entry) := by
  refine ⟨h.keyed, fun name s t hname => ?_, h.storing, h.replied⟩
  change Function.update g.redis key entry name = _ at hname
  by_cases hkey : name = key
  · subst hkey
    rw [Function.update_self] at hname
    exact hentry s t hname
  · rw [Function.update_of_ne hkey] at hname
    exact h.entries name s t hname

theorem Sound.complete (h : Sound g) : Sound (g.complete d) :=
  have hmem : ∀ d' ∈ g.completions, d' ∈ (g.complete d).completions :=
    fun _ hd => List.mem_cons_of_mem _ hd
  ⟨h.keyed, fun key s t hentry => (h.entries key s t hentry).later hmem,
    fun j c key s hj hphase => (h.storing j c key s hj hphase).later hmem,
    fun j c reply hj hreply => (h.replied j c reply hj hreply).later hmem⟩

theorem sound_intercept (h : Sound g) (j : ℕ) (r : Request) : Sound (g.put j (intercept r)) := by
  unfold intercept
  split
  · split
    · refine h.put (fun _ hkey => by cases hkey) (fun _ _ hs => by cases hs) fun reply hr => ?_
      cases hr
      exact .inr (.inr (.inr (.inl ⟨rfl, ‹_›⟩)))
    · exact h.put (fun _ hkey => by cases hkey) (fun _ _ hs => by cases hs) fun _ hr => by cases hr
  · refine h.put (fun _ hkey => ?_) (fun _ _ hs => by cases hs) fun _ hr => by cases hr
    cases hkey
    assumption

theorem sound_afterGet (h : Sound g) {answer : Answer} (hj : g.calls j = some c)
    (hphase : c.phase = .reading key) : Sound (g.put j (afterGet g c key answer)) := by
  have hkey := h.keyed j c key hj (by rw [hphase, Phase.key])
  unfold afterGet
  split
  · split
    · exact h.answer (.inr (.inl rfl))
    · rename_i s t hget
      obtain ⟨hentry, -⟩ := Option.filter_eq_some_iff.mp hget
      exact h.answer (.inr (.inr (.inr (.inr ⟨key, s, hkey, h.entries key s t hentry, rfl⟩))))
    · exact h.phase hj rfl rfl (fun name hname => by rw [hphase]; exact hname) nofun
  · exact h.answer (.inr (.inr (.inl rfl)))

theorem Sound.set_marker (h : Sound g) {ttlSeconds : ℕ} :
    Sound (g.setNX key .processing ttlSeconds) := by
  unfold Gateway.setNX
  split
  · exact h.write fun s t hentry => by cases hentry
  · exact h

theorem sound_afterSetNX (h : Sound g) {answer : Answer} (hj : g.calls j = some c)
    (hphase : c.phase = .claiming key) : Sound (afterSetNX g j c key answer) := by
  have hcall : (g.setNX key .processing 60).calls j = some c := by
    rw [← hj]
    unfold Gateway.setNX
    split <;> rfl
  cases answer with
  | served =>
    unfold afterSetNX
    dsimp only
    split
    · exact h.set_marker.phase hcall rfl rfl
        (fun name hname => by rw [hphase]; exact hname) nofun
    · exact h.answer (.inr (.inl rfl))
  | failed => exact h.answer (.inr (.inr (.inl rfl)))
  | lost => exact h.set_marker.answer (.inr (.inr (.inl rfl)))

theorem sound_afterHandle (h : Sound g) {outcome : Outcome} (hj : g.calls j = some c)
    (hphase : c.phase = .handling key) : Sound (afterHandle g j c key outcome) := by
  have hkey := h.keyed j c key hj (by rw [hphase, Phase.key])
  cases outcome with
  | succeeded statusCode body =>
    refine h.complete.put (fun name hname => ?_) (fun name s hs => ?_) fun reply hr => ?_
    · cases hname
      exact hkey
    · cases hs
      exact ⟨_, List.mem_cons_self, hkey, rfl⟩
    · cases hr
      exact .inl ⟨_, rfl⟩
  | failed =>
    refine h.put (fun name hname => ?_) nofun fun reply hr => ?_
    · cases hname
      exact hkey
    · cases hr
      exact .inl ⟨_, rfl⟩

theorem sound_step (h : Sound g) (hs : step g e = some g') : Sound g' := by
  cases step_iff.mp hs with
  | enter j request hj hg =>
    subst hg
    exact sound_intercept h j request
  | read j answer c key hj hphase hg =>
    subst hg
    exact sound_afterGet h hj hphase
  | claim j answer c key hj hphase hg =>
    subst hg
    exact sound_afterSetNX h hj hphase
  | complete j outcome c key hj hphase hg =>
    subst hg
    exact sound_afterHandle h hj hphase
  | unguarded j outcome c hj hphase hg =>
    subst hg
    exact h.answer (.inl ⟨outcome, rfl⟩)
  | store j answer c key response hj hphase hg =>
    subst hg
    have hrecorded := h.storing j c key response hj hphase
    unfold afterSet
    split
    · exact h.phase hj rfl rfl nofun nofun
    · refine Sound.phase (h.write fun s t hentry => ?_) hj rfl rfl nofun nofun
      cases hentry
      exact hrecorded
  | drop j answer c key hj hphase hg =>
    subst hg
    unfold afterDel
    split
    · exact h.phase hj rfl rfl nofun nofun
    · exact Sound.phase (h.write fun _ _ hentry => by cases hentry) hj rfl rfl nofun nofun
  | crash j c hj hg =>
    subst hg
    exact h.phase hj rfl rfl nofun nofun
  | pass ms hg =>
    subst hg
    exact ⟨h.keyed, h.entries, h.storing, h.replied⟩

theorem sound_idle : Sound Gateway.idle :=
  ⟨fun _ _ _ h => (by cases h), fun _ _ _ h => (by cases h), fun _ _ _ _ h => (by cases h),
    fun _ _ _ h => (by cases h)⟩

theorem sound_run {es : List Event} (hrun : run step Gateway.idle es = some g) : Sound g :=
  run_preserves (fun _ _ _ h hs => sound_step h hs) sound_idle hrun

/-! ### Along runs in time -/

theorem not_storing {phase : Phase} (hj : g.calls j = some c) (hphase : c.phase = phase)
    (hne : ∀ key s, phase ≠ .storing key s) : ∀ key, ¬ Storing g j key := by
  rintro key ⟨c', s, hj', hs⟩
  rw [hj] at hj'
  cases hj'
  exact hne key s (hphase.symm.trans hs)

theorem held_afterGet {answer : Answer} : (afterGet g c key answer).phase.held = none := by
  unfold afterGet
  split
  · split <;> rfl
  · rfl

theorem held_intercept : (intercept r).phase.held = none := by
  unfold intercept
  split
  · split <;> rfl
  · rfl

theorem Exclusive.ends (h : Exclusive g) (hstoring : ∀ key, ¬ Storing g j key)
    (hheld : c.phase.held = none) : Exclusive (g.put j c) :=
  h.put hstoring fun key hkey => by rw [hheld] at hkey; cases hkey

theorem exclusive_claim (h : Exclusive g) (hj : g.calls j = some c)
    (hphase : c.phase = .claiming key) : Exclusive (afterSetNX g j c key .served) := by
  have hidle := not_storing hj hphase nofun
  unfold afterSetNX
  dsimp only
  split
  · rename_i hfree
    have hnone : g.get key = none := by simpa using hfree
    have hunmarked : ∀ value t, g.redis key = some ⟨value, t⟩ → t ≤ g.now := by
      intro value t hentry
      by_contra hlater
      have : g.get key = some ⟨value, t⟩ :=
        Option.filter_eq_some_iff.mpr ⟨hentry, by simpa using hlater⟩
      rw [hnone] at this
      cases this
    have hnobody : ∀ i, ¬ Engaged g i key := by
      intro i hi
      obtain ⟨t, hmarked, hlater⟩ := h.marked i key hi
      have := hunmarked _ t hmarked
      omega
    rw [setNX_eq hnone]
    refine h.write (fun i hi => absurd hi (hnobody i)) (fun name hname => ?_)
      (fun name hname => ?_) ?_
    · obtain ⟨c', hj', hheld⟩ := hname
      rw [hj] at hj'
      cases hj'
      rw [hphase] at hheld
      cases hheld
    · cases hname
      exact ⟨rfl, _, rfl, by omega⟩
    · intro d hd hkey
      exact .inl (h.expired (fun s t hentry => hunmarked _ t hentry)
        (fun i hi => hnobody i hi.engaged) hd hkey)
  · exact h.ends hidle rfl

theorem exclusive_handle (h : Exclusive g) (hs : Sound g) {outcome : Outcome}
    (hj : g.calls j = some c) (hphase : c.phase = .handling key) :
    Exclusive (afterHandle g j c key outcome) := by
  have hkey := hs.keyed j c key hj (by rw [hphase, Phase.key])
  cases outcome with
  | succeeded statusCode body => exact h.complete hj hphase hkey rfl rfl rfl
  | failed =>
    refine h.put (not_storing hj hphase nofun) fun name hname => ?_
    cases hname
    exact ⟨c, hj, by rw [hphase, Phase.held]⟩

theorem exclusive_store (h : Exclusive g) {response : Stored} (hj : g.calls j = some c)
    (hphase : c.phase = .storing key response) {answer : Answer} (hanswer : answer ≠ .failed) :
    Exclusive ((afterSet g key response answer).put j { c with phase := .finished }) := by
  have hengaged : Engaged g j key := ⟨c, hj, by rw [hphase, Phase.held]⟩
  rw [afterSet, if_neg hanswer]
  refine h.write (fun i hi => h.alone i j key hi hengaged) (fun name hname => ?_) nofun ?_
  · obtain ⟨c', hj', hheld⟩ := hname
    rw [hj] at hj'
    cases hj'
    rw [hphase] at hheld
    cases hheld
    rfl
  · intro d hd _
    refine .inr ⟨response, _, rfl, ?_⟩
    have := h.past d hd
    unfold dayMs
    omega

theorem exclusive_drop (h : Exclusive g) (hj : g.calls j = some c)
    (hphase : c.phase = .dropping key) (answer : Answer) :
    Exclusive ((afterDel g key answer).put j { c with phase := .finished }) := by
  have hengaged : Engaged g j key := ⟨c, hj, by rw [hphase, Phase.held]⟩
  have hidle := not_storing hj hphase nofun
  unfold afterDel
  split
  · exact h.ends hidle rfl
  · refine h.write (fun i hi => h.alone i j key hi hengaged) (fun name hname => ?_) nofun ?_
    · obtain ⟨c', hj', hheld⟩ := hname
      rw [hj] at hj'
      cases hj'
      rw [hphase] at hheld
      cases hheld
      rfl
    · exact fun d hd hkey => .inl (h.expired_of_engaged hengaged (hidle key) hd hkey)

theorem exclusive_step (h : Exclusive g) (hsound : Sound g) (hin : InTime g e)
    (hs : step g e = some g') : Exclusive g' := by
  cases step_iff.mp hs with
  | enter j request hj hg =>
    subst hg
    refine h.ends ?_ held_intercept
    rintro key ⟨c, s, hc, -⟩
    rw [hj] at hc
    cases hc
  | read j answer c key hj hphase hg =>
    subst hg
    exact h.ends (not_storing hj hphase nofun) held_afterGet
  | claim j answer c key hj hphase hg =>
    subst hg
    cases hin
    exact exclusive_claim h hj hphase
  | complete j outcome c key hj hphase hg =>
    subst hg
    exact exclusive_handle h hsound hj hphase
  | unguarded j outcome c hj hphase hg =>
    subst hg
    exact h.ends (not_storing hj hphase nofun) rfl
  | store j answer c key response hj hphase hg =>
    subst hg
    exact exclusive_store h hj hphase hin
  | drop j answer c key hj hphase hg =>
    subst hg
    exact exclusive_drop h hj hphase answer
  | crash j c hj hg =>
    subst hg
    exact h.ends hin rfl
  | pass ms hg =>
    subst hg
    exact h.pass hin

theorem exclusive_idle : Exclusive Gateway.idle := by
  refine ⟨?_, ?_, fun d hd => (by cases hd), fun d hd => (by cases hd), .nil⟩
  · rintro i j key ⟨c, hc, -⟩
    cases hc
  · rintro j key ⟨c, hc, -⟩
    cases hc

/-- Redis has answered every request that asked it. -/
def Served (g : Gateway) : Prop := ∀ j c, g.calls j = some c → c.reply ≠ some unavailable

theorem Served.put (h : Served g) (hc : c.reply ≠ some unavailable) : Served (g.put j c) := by
  intro a ca ha
  rw [put_calls] at ha
  split at ha
  · cases ha
    exact hc
  · exact h a ca ha

theorem served_intercept : (intercept r).reply ≠ some unavailable := by
  unfold intercept
  split
  · split <;> nofun
  · nofun

theorem served_afterGet (hc : c.reply ≠ some unavailable) :
    (afterGet g c key .served).reply ≠ some unavailable := by
  unfold afterGet
  dsimp only
  split
  · nofun
  · nofun
  · exact hc

theorem served_step (h : Served g) (hin : InTime g e) (hs : step g e = some g') : Served g' := by
  cases step_iff.mp hs with
  | enter j request hj hg =>
    subst hg
    exact h.put served_intercept
  | read j answer c key hj hphase hg =>
    subst hg
    cases hin
    exact h.put (served_afterGet (h j c hj))
  | claim j answer c key hj hphase hg =>
    subst hg
    cases hin
    unfold afterSetNX
    dsimp only
    split
    · rw [setNX_eq (by simpa using ‹(g.get key).isNone = true›)]
      exact Served.put (g := g.set key .processing 60) h (h j c hj)
    · exact h.put nofun
  | complete j outcome c key hj hphase hg =>
    subst hg
    cases outcome with
    | succeeded statusCode body => exact Served.put (g := g.complete _) h nofun
    | failed => exact h.put nofun
  | unguarded j outcome c hj hphase hg =>
    subst hg
    exact h.put nofun
  | store j answer c key response hj hphase hg =>
    subst hg
    unfold afterSet
    split
    · exact h.put (h j c hj)
    · exact Served.put (g := g.set key (.response response) 86400) h (h j c hj)
  | drop j answer c key hj hphase hg =>
    subst hg
    unfold afterDel
    split
    · exact h.put (h j c hj)
    · exact Served.put (g := g.write key none) h (h j c hj)
  | crash j c hj hg =>
    subst hg
    exact h.put (h j c hj)
  | pass ms hg =>
    subst hg
    exact h

theorem redisKey_inj {a b : String} (h : redisKey a = redisKey b) : a = b := by
  have hlist := congrArg String.toList h
  simp only [redisKey, String.toList_append] at hlist
  exact String.toList_injective (List.append_cancel_left hlist)

theorem redisKey_of_idempotencyKey (h : r.idempotencyKey = some key) :
    r.redisKey = some (redisKey key) := by
  rw [Request.redisKey, h, Option.map_some]

theorem idempotencyKey_of_redisKey (h : r.redisKey = some (redisKey key)) :
    r.idempotencyKey = some key := by
  obtain ⟨key', hkey', hsame⟩ := Option.map_eq_some_iff.mp h
  rw [hkey', redisKey_inj hsame]

/-- Along every run in time, the handler succeeds once in a day at most for an idempotency key, and
a request that has not run its handler is answered with a conflict or with the stored response of
a success under its key. -/
theorem handled_once_a_day {es : List Event} (hrun : run step Gateway.idle es = some g)
    (hin : Along step InTime Gateway.idle es) :
    (∀ key, (g.completions.filter fun d => d.request.idempotencyKey = some key).Pairwise
      fun d d' => d'.completedAt + dayMs ≤ d.completedAt) ∧
    ∀ j c key reply, g.calls j = some c → c.request.idempotencyKey = some key →
      c.reply = some reply → (∃ outcome, reply = .own outcome) ∨ reply = conflict ∨
        ∃ d ∈ g.completions, d.request.idempotencyKey = some key ∧ reply = replay d.response := by
  obtain ⟨hsound, hexclusive, hserved⟩ : Sound g ∧ Exclusive g ∧ Served g := by
    refine run_invariant (I := fun g => Sound g ∧ Exclusive g ∧ Served g) ?_
      ⟨sound_idle, exclusive_idle, fun _ _ h => by cases h⟩ hin hrun
    rintro g e g' ⟨hsound, hexclusive, hserved⟩ hin hs
    exact ⟨sound_step hsound hs, exclusive_step hexclusive hsound hin hs,
      served_step hserved hin hs⟩
  constructor
  · intro key
    rw [List.pairwise_filter]
    refine hexclusive.apart.imp fun happart hd hd' => happart ?_
    rw [redisKey_of_idempotencyKey (by simpa using hd),
      redisKey_of_idempotencyKey (by simpa using hd')]
  · intro j c key reply hj hkey hreply
    rcases hsound.replied j c reply hj hreply with hown | hconflict | hdown | ⟨-, hnone⟩ |
      ⟨name, s, hname, ⟨d, hd, hdname, rfl⟩, hreplay⟩
    · exact .inl hown
    · exact .inr (.inl hconflict)
    · rw [hdown] at hreply
      exact absurd hreply (hserved j c hj)
    · rw [redisKey_of_idempotencyKey hkey] at hnone
      cases hnone
    · rw [redisKey_of_idempotencyKey hkey] at hname
      cases hname
      exact .inr (.inr ⟨d, hd, idempotencyKey_of_redisKey hdname, hreplay⟩)

/-! ### One user, one route, one key -/

def payment (userId route key : String) : Request := ⟨userId, route, true, some key, none, none⟩

def repeated : List Event :=
  [.enter 0 (payment "user" "/redemptions" "key"), .read 0 .served, .claim 0 .served,
    .complete 0 (.succeeded 201 (some "receipt")), .store 0 .served,
    .enter 1 (payment "user" "/redemptions" "key"), .read 1 .served]

/-- The handler of the first request waits for the chain for more than a minute. -/
def lateHandler : List Event :=
  [.enter 0 (payment "user" "/redemptions" "key"), .read 0 .served, .claim 0 .served, .pass 60000,
    .enter 1 (payment "user" "/redemptions" "key"), .read 1 .served, .claim 1 .served,
    .complete 0 (.succeeded 201 (some "first")), .complete 1 (.succeeded 201 (some "second"))]

def failedStore : List Event :=
  [.enter 0 (payment "user" "/redemptions" "key"), .read 0 .served, .claim 0 .served,
    .complete 0 (.succeeded 201 (some "first")), .store 0 .failed, .pass 60000,
    .enter 1 (payment "user" "/redemptions" "key"), .read 1 .served, .claim 1 .served,
    .complete 1 (.succeeded 201 (some "second"))]

/-- `InTime`, where no time passes and no process stops. -/
def inTime : Event → Bool
  | .read _ answer => answer == .served
  | .claim _ answer => answer == .served
  | .store _ answer => answer != .failed
  | .crash _ => false
  | .pass _ => false
  | _ => true

theorem inTime_of_test (h : inTime e = true) : InTime g e := by
  cases e with
  | read j answer => simpa [inTime, InTime] using h
  | claim j answer => simpa [inTime, InTime] using h
  | store j answer => simpa [inTime, InTime] using h
  | crash j => cases h
  | pass ms => cases h
  | _ => trivial

theorem handled_once_a_day_repeated : ∃ g, run step Gateway.idle repeated = some g ∧
    (∀ key, (g.completions.filter fun d => d.request.idempotencyKey = some key).Pairwise
      fun d d' => d'.completedAt + dayMs ≤ d.completedAt) ∧
    ∀ j c key reply, g.calls j = some c → c.request.idempotencyKey = some key →
      c.reply = some reply → (∃ outcome, reply = .own outcome) ∨ reply = conflict ∨
        ∃ d ∈ g.completions, d.request.idempotencyKey = some key ∧ reply = replay d.response := by
  obtain ⟨g, hg⟩ := Option.isSome_iff_exists.mp
    (show (run step Gateway.idle repeated).isSome = true by decide +kernel)
  exact ⟨g, hg, handled_once_a_day hg (along_mono (C := fun _ e => inTime e = true)
    (fun _ _ h => inTime_of_test h) (by decide +kernel))⟩

/-- Two requests of one user to one route with one key, both of which succeed within a minute; and
one that Redis does not answer. -/
theorem handled_twice :
    (∃ g, run step Gateway.idle lateHandler = some g ∧ g.completions =
      [⟨1, payment "user" "/redemptions" "key", ⟨201, some "second"⟩, 60000⟩,
        ⟨0, payment "user" "/redemptions" "key", ⟨201, some "first"⟩, 60000⟩]) ∧
    (∃ g, run step Gateway.idle failedStore = some g ∧ g.completions =
      [⟨1, payment "user" "/redemptions" "key", ⟨201, some "second"⟩, 60000⟩,
        ⟨0, payment "user" "/redemptions" "key", ⟨201, some "first"⟩, 0⟩]) ∧
    ∃ g, run step Gateway.idle
        [.enter 0 (payment "user" "/redemptions" "key"), .read 0 .failed] = some g ∧
      (g.calls 0).map Call.reply = some (some unavailable) := by
  refine ⟨Option.map_eq_some_iff.mp ?_, Option.map_eq_some_iff.mp ?_, ?_⟩
  · decide +kernel
  · decide +kernel
  · exact ⟨_, rfl, rfl⟩

end Livora.IdempotentRuns
