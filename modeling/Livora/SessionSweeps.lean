import Livora.SessionRotations

/-! `invalidateAllUserSessions` among logins, rotations and logouts. Once it has returned no token
of the user from before, and none that replaces one, is accepted any more, where the set of the user
has all its live tokens when it is read, no rotation of one is under way then, none is read before
it is deleted, and the deletes are made. -/

namespace Livora.SessionSweeps

open TransitionRuns EffectPrograms EffectPrograms.Action ProgramPools ProgramPools.System StageViews
open PoolAnswers AuthBooks SessionTokens SessionStages SessionLines
open PinVerification (Delivery)
open SessionRotations (returns)

variable {h : List (ℕ × Except Failure Answer)} {w w' before : World} {st : ℕ → Option Stage}
    {i : Op}
  {o : Delivery} {s s' : Stage} {j k : ℕ} {refreshToken : Uuid} {userId : String}

/-! ### What a user had -/

/-- The token was issued to the user before, or replaces one that was, or one that replaces it. -/
inductive OfLine (before after : World) (userId : String) : Uuid → Prop
  | issued {t : Uuid} {session : SessionData} :
    issuedAs before t = some session → session.userId = userId → OfLine before after userId t
  | rotated {t old : Uuid} {session : SessionData} :
    OfLine before after userId old → after.issued t = some (session, some old) →
      OfLine before after userId t

def familiesOf (before : World) (userId : String) : Set Uuid :=
  {f | ∃ t session, issuedAs before t = some session ∧ session.userId = userId ∧
    session.familyId = f}

def Grows (w w' : World) : Prop := ∀ t stored, w.issued t = some stored → w'.issued t = some stored

theorem Grows.refl (w : World) : Grows w w := fun _ _ ht => ht

theorem Grows.trans {w'' : World} (h : Grows w w') (h' : Grows w' w'') : Grows w w'' :=
  fun t stored ht => h' t stored (h t stored ht)

theorem Grows.issuedAs (h : Grows w w') {session : SessionData}
    (ht : issuedAs w refreshToken = some session) :
    issuedAs w' refreshToken = some session := by
  obtain ⟨stored, hstored, rfl⟩ := Option.map_eq_some_iff.mp ht
  rw [SessionLines.issuedAs, h refreshToken stored hstored]
  rfl

theorem family_of_line (hgrows : Grows before w) (hsound : Sound w) {t : Uuid}
    (ht : OfLine before w userId t) :
    ∃ session, issuedAs w t = some session ∧ session.familyId ∈ familiesOf before userId := by
  induction ht with
  | issued hissued huser => exact ⟨_, hgrows.issuedAs hissued, _, _, hissued, huser, rfl⟩
  | rotated hold hissued ih =>
    obtain ⟨read, hread, hmem⟩ := ih
    obtain ⟨read', hread', hsame⟩ := hsound.descends _ _ _ hissued
    cases hread.symm.trans hread'
    exact ⟨_, congrArg (Option.map Prod.fst) hissued, hsame ▸ hmem⟩

theorem user_of_family (hgrows : Grows before w) (hsound : Sound w) {t : Uuid}
    {session : SessionData}
    (ht : issuedAs w t = some session) (hmem : session.familyId ∈ familiesOf before userId) :
    session.userId = userId := by
  obtain ⟨t', session', hissued, huser, hsame⟩ := hmem
  rw [← huser]
  exact hsound.owner t t' session session' ht (hgrows.issuedAs hissued) hsame.symm

theorem grows_call (hl : Lined w st) (hj : st j = some s) (hallowed : Allowed s i) :
    Grows w (w.after i o) := by
  have hsame (h : Op.tokenless i = true) : Grows w (w.after i o) := by
    intro t stored ht
    rw [(same_after h).issued]
    exact ht
  cases i with
  | randomUUID => exact .refl w
  | del caller t =>
    by_cases happlied : o.applied = true
    · rw [show w.after (.del caller t) o = w.effect (.del caller t) from if_pos happlied]
      exact .refl w
    · rw [show w.after (.del caller t) o = w from if_neg happlied]
      exact .refl w
  | set t session replaces =>
    by_cases happlied : o.applied = true
    · rw [show w.after (.set t session replaces) o = w.effect (.set t session replaces) from
        if_pos happlied]
      intro t' stored ht
      have hnone := ((hl.knows j s hj).token t hallowed.1).2
      rw [issued_set, if_neg, ht]
      rintro rfl
      rw [SessionLines.issuedAs, ht] at hnone
      cases hnone
    · rw [show w.after (.set t session replaces) o = w from if_neg happlied]
      exact .refl w
  | _ => exact hsame rfl

/-! ### The sweep -/

/-- Only the tokens of the list are left of the families, and no rotation has read one of them. -/
structure Clearing (families : Set Uuid) (tokens : List Uuid) (w : World) (st : ℕ → Option Stage) :
    Prop where
  live : ∀ t session, w.live t = some session → session.familyId ∈ families → t ∈ tokens
  fetched : ∀ k s, st k = some s → ∀ t session, s.fetched = some (t, session) →
    session.familyId ∉ families

variable {families : Set Uuid} {tokens : List Uuid}

def Fades (w w' : World) : Prop := ∀ t session, w'.live t = some session → w.live t = some session

theorem Clearing.update (hc : Clearing families tokens w st) (hfades : Fades w w')
    {t : Option Stage} (ht : ∀ s, t = some s → ∀ x session, s.fetched = some (x, session) →
      session.familyId ∉ families) :
    Clearing families tokens w' (Function.update st j t) where
  live x session hx hf := hc.live x session (hfades x session hx) hf
  fetched := knows_update (p := fun s => ∀ x session, s.fetched = some (x, session) →
    session.familyId ∉ families) (fun k s _ hk => hc.fetched k s hk) ht

theorem Fades.refl (w : World) : Fades w w := fun _ _ ht => ht

theorem fades_of_same (hsame : Same w w') (hnow : w'.now = w.now) : Fades w w' := by
  intro t session ht
  rw [World.live, hsame.sessions, hnow] at ht
  exact ht

theorem live_del {caller : Caller} (t : Uuid) : (w.effect (.del caller refreshToken)).live t =
    if t = refreshToken then none else w.live t := by
  rw [World.live, sessions_del]
  split
  · rfl
  · rfl

theorem fades_del {caller : Caller} : Fades w (w.effect (.del caller refreshToken)) := by
  intro t session ht
  rw [live_del] at ht
  exact (Option.ite_none_left_eq_some.mp ht).2

theorem fades_pass (ms : ℕ) : Fades w { w with now := w.now + ms } := by
  intro t session ht
  obtain ⟨entry, hentry, hsession, hlater⟩ := live_stored ht
  refine Option.map_eq_some_iff.mpr ⟨entry, Option.filter_eq_some_iff.mpr ⟨hentry, ?_⟩, hsession⟩
  exact decide_eq_true ((Nat.le_add_right _ _).trans_lt hlater)

theorem clearing_set (hc : Clearing families tokens w st) (hl : Lined w st) (hj : st j = some s)
    (hfamilies : ∀ f ∈ families, ∃ t session, issuedAs w t = some session ∧ session.familyId = f)
    {session : SessionData} {replaces : Option Uuid}
    (hallowed : Allowed s (.set refreshToken session replaces)) {s' : Stage}
    (hfetched : s'.fetched = s.fetched) :
    Clearing families tokens (w.effect (.set refreshToken session replaces))
      (Function.update st j (some s')) := by
  obtain ⟨-, hfamily, hinherits⟩ := hallowed
  have hmine := hc.fetched j s hj
  have hout : session.familyId ∉ families := by
    cases replaces with
    | none =>
      intro hmem
      obtain ⟨t, d, ht, hf⟩ := hfamilies _ hmem
      exact ((hl.knows j s hj).fresh _ ((if_pos hinherits).trans hfamily)).2 t d ht hf
    | some old =>
      obtain ⟨read, hread, -, -, hsame⟩ := hinherits
      rw [hsame]
      exact hmine old read hread
  refine ⟨fun t d ht hf => ?_, (hc.update (Fades.refl w) fun x hx => ?_).fetched⟩
  · rw [World.live, sessions_set] at ht
    split at ht
    · obtain ⟨entry, hentry, rfl⟩ := Option.map_eq_some_iff.mp ht
      cases (Option.filter_eq_some_iff.mp hentry).1
      exact absurd hf hout
    · exact hc.live t d ht hf
  · cases hx
    rw [hfetched]
    exact hmine

theorem now_tokenless (htokenless : Op.tokenless i = true) : (w.after i o).now = w.now := by
  have hwhole (w' : World) (hnow : w'.now = w.now) : (if o.applied then w' else w).now = w.now := by
    split
    · exact hnow
    · rfl
  cases i with
  | randomUUID => cases htokenless
  | del caller t => cases htokenless
  | set t session replaces => cases htokenless
  | _ => exact hwhole _ rfl

theorem clearing_call (hc : Clearing families tokens w st) (hl : Lined w st) (hj : st j = some s)
    (hfamilies : ∀ f ∈ families, ∃ t session, issuedAs w t = some session ∧ session.familyId = f)
    (hallowed : Allowed s i) (hget : ∀ t, i = .get .rotation t → t ∉ tokens) :
    Clearing families tokens (w.after i o)
      (Function.update st j (some (next s i (w.reply i o)))) := by
  have hmine := hc.fetched j s hj
  have hkeep {s' : Stage} (hfetched : s'.fetched = s.fetched) (hfades : Fades w (w.after i o)) :
      Clearing families tokens (w.after i o) (Function.update st j (some s')) := by
    refine hc.update hfades fun x hx => ?_
    cases hx
    rw [hfetched]
    exact hmine
  have hsame (htokenless : Op.tokenless i = true) : Fades w (w.after i o) :=
    fades_of_same (same_after htokenless) (now_tokenless htokenless)
  cases i with
  | randomUUID =>
    refine hkeep ?_ (Fades.refl w)
    change (drew s w.drawn).fetched = _
    unfold drew
    split <;> rfl
  | del caller t =>
    have hfades : Fades w (w.after (.del caller t) o) := by
      by_cases happlied : o.applied = true
      · rw [show w.after (.del caller t) o = w.effect (.del caller t) from if_pos happlied]
        exact fades_del
      · rw [show w.after (.del caller t) o = w from if_neg happlied]
        exact Fades.refl w
    refine hkeep ?_ hfades
    unfold next
    split <;> first | rfl | simp_all
  | set t session replaces =>
    by_cases happlied : o.applied = true
    · have hafter : w.after (.set t session replaces) o = w.effect (.set t session replaces) :=
        if_pos happlied
      rw [hafter]
      exact clearing_set hc hl hj hfamilies hallowed rfl
    · have hafter : w.after (.set t session replaces) o = w := if_neg happlied
      refine hkeep rfl ?_
      rw [hafter]
      exact Fades.refl w
  | get caller t =>
    cases caller with
    | logout => exact hkeep rfl (hsame rfl)
    | sweep => exact hkeep rfl (hsame rfl)
    | rotation =>
      cases hreply : w.reply (.get .rotation t) o with
      | error e => exact hkeep rfl (hsame rfl)
      | ok found =>
        have hlive : w.live t = found := (Delivery.answer_ok hreply).2
        refine hc.update (hsame rfl) fun x hx x' d hd => ?_
        cases hx
        obtain ⟨d', hd', hpair⟩ := Option.map_eq_some_iff.mp hd
        cases hpair
        exact fun hmem => hget t rfl (hc.live t d (hlive.trans hd') hmem)
  | smembers userId =>
    cases hreply : w.reply (.smembers userId) o with
    | error e => exact hkeep rfl (hsame rfl)
    | ok found => exact hkeep rfl (hsame rfl)
  | _ => exact hkeep rfl (hsame rfl)

/-! ### One sweep -/

def Tracked (w : World) (userId : String) : Prop :=
  ∀ t session, w.live t = some session → session.userId = userId →
    t ∈ (w.members userId).elim [] Members.tokens

/-- No rotation of a token of the user is under way. -/
def Idle (st : ℕ → Option Stage) (userId : String) : Prop :=
  ∀ k s t session, st k = some s → s.fetched = some (t, session) → session.userId ≠ userId

/-- The sweep finds all tokens in the set while no rotation is under way, no token is read before it
is deleted, and each delete is made. -/
def Firm (c : Race) (j : ℕ) (userId : String) (k : ℕ) (o : Delivery) : Op → Prop
  | .smembers _ => k = j → Tracked c.world userId ∧ Idle (active c) userId
  | .get .rotation t =>
    ∀ s tokens, active c j = some s → s.remaining = some (userId, tokens) → t ∉ tokens
  | .del .sweep _ => k = j → o.applied = true
  | _ => True

/-- As `Firm` says, and the sweep is not stopped. -/
def Firmly (j : ℕ) (userId : String) (c : Race) : RaceEvent → Prop
  | .advance k o => ∀ i, pending c k = some i → Firm c j userId k o i
  | .stop k => k ≠ j
  | _ => True

structure Swept (before : World) (j : ℕ) (userId : String) (h : List (ℕ × Except Failure Answer))
    (w : World) (st : ℕ → Option Stage) : Prop where
  lined : Lined w st
  grows : Grows before w
  clearing : ∀ s tokens, st j = some s → s.remaining = some (userId, tokens) →
    Clearing (familiesOf before userId) tokens w st
  returned : (j, .ok (.swept userId)) ∈ h → Clearing (familiesOf before userId) [] w st

theorem issued_of_families (hgrows : Grows before w) : ∀ f ∈ familiesOf before userId,
    ∃ t session, issuedAs w t = some session ∧ session.familyId = f := by
  rintro f ⟨t, session, hissued, -, hf⟩
  exact ⟨t, session, hgrows.issuedAs hissued, hf⟩

theorem clearing_smembers (hl : Lined w st) (hgrows : Grows before w) (htracked : Tracked w userId)
    (hidle : Idle st userId) :
    Clearing (familiesOf before userId) ((w.members userId).elim [] Members.tokens) w st where
  live t session ht hmem :=
    htracked t session ht (user_of_family hgrows hl.sound (hl.sound.live ht) hmem)
  fetched k s hk t session hfetched hmem :=
    hidle k s t session hk hfetched
      (user_of_family hgrows hl.sound ((hl.knows k s hk).fetched t session hfetched) hmem)

theorem Clearing.delete {token : Uuid} (hc : Clearing families (token :: tokens) w st)
    (hgone : w.live token = none) : Clearing families tokens w st where
  live t session ht hmem := by
    rcases List.mem_cons.mp (hc.live t session ht hmem) with rfl | hrest
    · rw [hgone] at ht
      cases ht
    · exact hrest
  fetched := hc.fetched

theorem swept_call {c : Race} (hs : Swept before j userId h c.world (active c))
    (hk : active c k = some s) (hallowed : Allowed s i) (hfirm : Firm c j userId k o i) :
    Swept before j userId h (c.world.after i o)
      (Function.update (active c) k (some (next s i (c.world.reply i o)))) := by
  have hgrows := hs.grows
  have hfamilies : ∀ f ∈ familiesOf before userId,
      ∃ t session, issuedAs c.world t = some session ∧ session.familyId = f :=
        issued_of_families hgrows
  have hget (tokens : List Uuid) {s' : Stage} (hj : active c j = some s')
      (hr : s'.remaining = some (userId, tokens)) : ∀ t, i = .get .rotation t → t ∉ tokens := by
    rintro t rfl
    exact hfirm s' tokens hj hr
  have hkeep (s' : Stage) (tokens : List Uuid) (hj : active c j = some s')
      (hr : s'.remaining = some (userId, tokens)) : Clearing (familiesOf before userId) tokens
        (c.world.after i o) (Function.update (active c) k (some (next s i (c.world.reply i o)))) :=
    clearing_call (hs.clearing s' tokens hj hr) hs.lined hk hfamilies hallowed (hget tokens hj hr)
  refine ⟨call_lined hs.lined hk hallowed, hgrows.trans (grows_call hs.lined hk hallowed),
    fun s' tokens hj hr => ?_, fun hreturned => ?_⟩
  swap
  · exact clearing_call (hs.returned hreturned) hs.lined hk hfamilies hallowed fun t _ =>
      List.not_mem_nil
  by_cases hkj : k = j
  swap
  · rw [Function.update_of_ne (Ne.symm hkj)] at hj
    exact hkeep s' tokens hj hr
  subst hkj
  rw [Function.update_self] at hj
  cases hj
  cases i with
  | smembers u =>
    cases hreply : c.world.reply (.smembers u) o with
    | error e =>
      obtain rfl : s = .first := hallowed
      rw [hreply] at hr
      cases hr
    | ok found =>
      rw [hreply] at hr
      obtain ⟨rfl, rfl⟩ := Prod.mk.inj (Option.some.inj hr)
      obtain ⟨htracked, hidle⟩ := hfirm rfl
      have hfound : (c.world.members u).elim [] Members.tokens = found :=
        (Delivery.answer_ok hreply).2
      have hclearing := clearing_smembers hs.lined hgrows htracked hidle
      rw [hfound] at hclearing
      have hcleared := clearing_call (o := o) hclearing hs.lined hk hfamilies hallowed fun t he =>
        (by cases he)
      rwa [hreply] at hcleared
  | del caller t =>
    cases caller with
    | sweep =>
      obtain ⟨u, rest, hremaining⟩ := hallowed
      have htail : (next s (.del .sweep t) (c.world.reply (.del .sweep t) o)).remaining =
          some (u, rest) := by
        change s.remaining.map _ = _
        rw [hremaining]
        rfl
      obtain ⟨rfl, rfl⟩ := Prod.mk.inj (Option.some.inj (htail.symm.trans hr))
      refine (hkeep s (t :: rest) hk hremaining).delete ?_
      have hafter : c.world.after (.del .sweep t) o = c.world.effect (.del .sweep t) :=
        if_pos (hfirm rfl)
      rw [hafter, live_del, if_pos rfl]
    | logout => exact hkeep s tokens hk hr
    | rotation =>
      refine hkeep s tokens hk ?_
      rw [← hr]
      unfold next
      split <;> first | rfl | simp_all
  | randomUUID =>
    refine hkeep s tokens hk ?_
    rw [← hr]
    change _ = (drew s c.world.drawn).remaining
    unfold drew
    split <;> rfl
  | get caller t =>
    refine hkeep s tokens hk ?_
    rw [← hr]
    unfold next
    split <;> first | rfl | simp_all
  | _ => exact hkeep s tokens hk hr

theorem swept_run {c c' : Race} {es : List RaceEvent} (hends : system.Ends Done c)
    (hs : Swept before j userId h c.world (active c))
    (hfirm : Along system.step (Firmly j userId) c es) (hrun : run system.step c es = some c') :
    Swept before j userId (h ++ answers system c es) c'.world (active c') := by
  have hupdate {h : List (ℕ × Except Failure Answer)} {w : World} {st : ℕ → Option Stage} {k : ℕ}
      {t : Option Stage} (hs : Swept before j userId h w st) (hl : Lined w (Function.update st k t))
      (ht : ∀ s, t = some s → s = .first) : Swept before j userId h w (Function.update st k t) := by
    have hfetched : ∀ s, t = some s → ∀ x session, s.fetched = some (x, session) →
        session.familyId ∉ familiesOf before userId := by
      intro s hs x session hx
      obtain rfl := ht s hs
      cases hx
    refine ⟨hl, hs.grows, fun s tokens hj hr => ?_, fun hx =>
      (hs.returned hx).update (Fades.refl w) hfetched⟩
    by_cases hkj : k = j
    · subst hkj
      rw [Function.update_self] at hj
      obtain rfl := ht s hj
      cases hr
    · rw [Function.update_of_ne (Ne.symm hkj)] at hj
      exact (hs.clearing s tokens hj hr).update (Fades.refl w) hfetched
  refine run_answers (S := system) (Q := Done) keeps_program calls_program
    (fun h c k a hs _ _ => ?_) (fun h c k o s i hs hk hi hallowed hC => ?_)
    (fun h w st k s x hs hk hx => ?_) (fun h c k hs _ => ?_) (fun h c d w hs _ hw =>
      ?_) hends hs hfirm hrun
  · exact hupdate hs (lined_start hs.lined) fun s hs => (Option.some.inj hs).symm
  · exact swept_call hs hk hallowed (hC i hi)
  · have hgone := hupdate (k := k) hs (lined_gone hs.lined) fun s hs => (by cases hs)
    refine ⟨hgone.lined, hgone.grows, hgone.clearing, fun hreturned => ?_⟩
    rcases List.mem_append.mp hreturned with hold | hnew
    · exact hgone.returned hold
    · obtain ⟨rfl, rfl⟩ := Prod.mk.inj (List.mem_singleton.mp hnew)
      exact (hs.clearing s [] hk hx).update (Fades.refl w) fun s hs => (by cases hs)
  · exact hupdate hs (lined_gone hs.lined) fun s hs => (by cases hs)
  · have hl := lined_outside hs.lined hw
    cases d
    cases hw
    exact ⟨hl, hs.grows, fun s tokens hj hr =>
      ⟨fun t d ht => (hs.clearing s tokens hj hr).live t d (fades_pass _ t d ht),
        (hs.clearing s tokens hj hr).fetched⟩, fun hx =>
      ⟨fun t d ht => (hs.returned hx).live t d (fades_pass _ t d ht), (hs.returned hx).fetched⟩⟩

/-! ### Afterwards -/

structure Ended (before : World) (userId : String) (h : List (ℕ × Except Failure Answer))
    (w : World) (st : ℕ → Option Stage) : Prop where
  lined : Lined w st
  grows : Grows before w
  clearing : Clearing (familiesOf before userId) [] w st
  refused : ∀ x ∈ h, ∀ t, returns t x = true →
    ∃ session, issuedAs w t = some session ∧ session.familyId ∉ familiesOf before userId

theorem Ended.world (he : Ended before userId h w st) {st' : ℕ → Option Stage} (hgrows : Grows w w')
    (hl : Lined w' st') (hc : Clearing (familiesOf before userId) [] w' st') :
    Ended before userId h w' st' := by
  refine ⟨hl, he.grows.trans hgrows, hc, fun x hx t ht => ?_⟩
  obtain ⟨session, hissued, hout⟩ := he.refused x hx t ht
  exact ⟨session, hgrows.issuedAs hissued, hout⟩

theorem ended_answer (he : Ended before userId h w st) (hk : st k = some s)
    {x : Except Failure Answer}
    (hx : Done s x) : Ended before userId (h ++ [(k, x)]) w (Function.update st k none) := by
  refine ⟨lined_gone he.lined, he.grows, he.clearing.update (Fades.refl w) fun s hs =>
    (by cases hs), fun y hy t ht => ?_⟩
  rcases List.mem_append.mp hy with hold | hnew
  · exact he.refused y hold t ht
  · obtain rfl := List.mem_singleton.mp hnew
    cases x with
    | error e => cases ht
    | ok answer =>
      cases answer with
      | rotated old new session =>
        obtain rfl : old = t := of_decide_eq_true ht
        obtain ⟨-, read, hfetched⟩ := hx
        exact ⟨read, (he.lined.knows k s hk).fetched _ _ hfetched,
          he.clearing.fetched k s hk _ _ hfetched⟩
      | _ => cases ht

theorem ended_run {c c' : Race} {es : List RaceEvent} (hends : system.Ends Done c)
    (he : Ended before userId h c.world (active c)) (hrun : run system.step c es = some c') :
    Ended before userId (h ++ answers system c es) c'.world (active c') := by
  refine run_answers (S := system) (Q := Done) (C := fun _ _ => True) (I := Ended before userId)
    keeps_program calls_program (fun h c k a he _ _ => ?_)
      (fun h c k o s i he hk _ hallowed _ => ?_)
    (fun h w st k s x he hk hx => ended_answer he hk hx) (fun h c k he _ => ?_)
    (fun h c d w he _ hw => ?_) hends he (along_iff.mpr fun _ _ _ _ _ _ => trivial) hrun
  · refine he.world (.refl _) (lined_start he.lined)
      (he.clearing.update (Fades.refl _) fun s hs => ?_)
    cases hs
    exact fun x session hx => (by cases hx)
  · exact he.world (grows_call he.lined hk hallowed) (call_lined he.lined hk hallowed)
      (clearing_call he.clearing he.lined hk (issued_of_families he.grows) hallowed
        fun t _ => List.not_mem_nil)
  · exact he.world (.refl _) (lined_gone he.lined)
      (he.clearing.update (Fades.refl _) fun s hs => (by cases hs))
  · have hl := lined_outside he.lined hw
    cases d
    cases hw
    exact he.world (.refl _) hl
      ⟨fun t d ht => he.clearing.live t d (fades_pass _ t d ht), he.clearing.fetched⟩

theorem ends_empty : system.Ends Done empty := fun j t ht => by cases ht

/-- After a sweep of the user has returned, no token that the user had before it, and none that
replaces one, is live or exchanged. -/
theorem sessions_ended {past during later : List RaceEvent} {c₀ c₁ c₂ c₃ : Race}
    (hpast : run system.step empty past = some c₀)
    (hstart : system.step c₀ (.start j (.invalidateAll userId)) = some c₁)
    (hfirm : Along system.step (Firmly j userId) c₁ during)
    (hduring : run system.step c₁ during = some c₂)
    (hreturned : (j, .ok (.swept userId)) ∈ answers system c₁ during)
    (hlater : run system.step c₂ later = some c₃) {t : Uuid}
    (ht : OfLine c₀.world c₃.world userId t) :
    c₃.world.live t = none ∧ (answers system c₂ later).filter (returns t) = [] := by
  have hends₀ := run_ends keeps_program ends_empty hpast
  have hends₁ := step_ends keeps_program hends₀ hstart
  have hends₂ := run_ends keeps_program hends₁ hduring
  have hl₀ := run_lined (fun j t ht => (by cases ht)) lined_empty hpast
  obtain ⟨-, rfl⟩ := step_start.mp hstart
  have hswept : Swept c₀.world j userId [] c₀.world
    (Function.update (active c₀) j (some .first)) := by
    refine ⟨lined_start hl₀, .refl _, fun s tokens hj hr => ?_, fun hx => (by cases hx)⟩
    rw [Function.update_self] at hj
    cases hj
    cases hr
  have hactive : active (⟨c₀.world, Function.update c₀.tasks j (some ⟨.first,
      (handle (.invalidateAll userId)).run⟩)⟩ : Race) = Function.update (active c₀) j
        (some .first) :=
    active_update
  have hdone := swept_run hends₁ (hactive.symm ▸ hswept) hfirm hduring
  have hended : Ended c₀.world userId [] c₂.world (active c₂) :=
    ⟨hdone.lined, hdone.grows, hdone.returned hreturned, fun x hx => (by cases hx)⟩
  have hlast := ended_run hends₂ hended hlater
  obtain ⟨session, hissued, hmem⟩ := family_of_line hlast.grows hlast.lined.sound ht
  constructor
  · cases hlive : c₃.world.live t with
    | none => rfl
    | some d =>
      cases hissued.symm.trans (hlast.lined.sound.live hlive)
      exact absurd (hlast.clearing.live t session hlive hmem) List.not_mem_nil
  · refine List.filter_eq_nil_iff.mpr fun x hx hreturns => ?_
    obtain ⟨d, hd, hout⟩ := hlast.refused x hx t hreturns
    cases hissued.symm.trans hd
    exact hout hmem

/-! ### A set that expires before its tokens -/

open SessionRotations (login answered)

def reached (c : Race) (es : List RaceEvent) : Race := (run system.step c es).getD c

theorem run_reached {c : Race} {es : List RaceEvent} (h : (run system.step c es).isSome = true) :
    run system.step c es = some (reached c es) := by
  obtain ⟨c', hc⟩ := Option.isSome_iff_exists.mp h
  rw [reached, hc]
  rfl

/-- `Firmly` as a test, where few programs run. -/
def firmly (n j : ℕ) (userId : String) (c : Race) : RaceEvent → Bool
  | .advance k o =>
    match pending c k with
    | some (.smembers _) => k != j ||
        (List.range c.world.drawn).all (fun t => (c.world.live t).all fun session =>
          session.userId != userId ||
            decide (t ∈ (c.world.members userId).elim [] Members.tokens)) &&
        (List.range n).all fun k => (active c k).all fun s => s.fetched.all fun read =>
          read.2.userId != userId
    | some (.get .rotation t) => (active c j).all fun s => s.remaining.all fun r => decide (t ∉ r.2)
    | some (.del .sweep _) => k != j || o.applied
    | _ => true
  | .stop k => k != j
  | _ => true

theorem firmly_of_test {n : ℕ} {c : Race} {e : RaceEvent} (hl : Lined c.world (active c))
    (hn : Below n c) (h : firmly n j userId c e = true) : Firmly j userId c e := by
  cases e with
  | advance k o =>
    intro i hi
    simp only [firmly, hi] at h
    cases i with
    | smembers u =>
      intro hkj
      simp only [hkj, bne_self_eq_false, Bool.false_or, Bool.and_eq_true, List.all_eq_true,
        List.mem_range, Option.all_eq_true, Bool.or_eq_true, bne_iff_ne, decide_eq_true_eq] at h
      obtain ⟨htracked, hidle⟩ := h
      refine ⟨fun t session ht huser => ?_, fun k s t session hk hfetched => ?_⟩
      · exact (htracked t (hl.sound.below t session (hl.sound.live ht)).1 session ht).resolve_left
          fun hne => hne huser
      · have hkn : k < n := by
          by_contra hge
          rw [active, hn k (Nat.le_of_not_lt hge)] at hk
          cases hk
        exact hidle k hkn s hk _ hfetched
    | get caller t =>
      cases caller with
      | rotation =>
        intro s tokens hj hr
        simp only [hj, Option.all_some, hr, decide_eq_true_eq] at h
        exact h
      | _ => trivial
    | del caller t =>
      cases caller with
      | sweep =>
        intro hkj
        subst hkj
        simpa using h
      | _ => trivial
    | _ => trivial
  | stop k => exact bne_iff_ne.mp h
  | _ => trivial

structure Small (n : ℕ) (c : Race) : Prop where
  disciplined : system.Disciplined c
  lined : Lined c.world (active c)
  below : Below n c

theorem Small.step {n : ℕ} {c c' : Race} {e : RaceEvent} (h : Small n c)
    (he : startsBelow n e = true) (hstep : system.step c e = some c') : Small n c' := by
  have hrun : run system.step c [e] = some c' := run_cons.mpr ⟨c', hstep, rfl⟩
  exact ⟨step_disciplined keeps_all h.disciplined hstep, run_lined h.disciplined h.lined hrun,
    step_below h.below he hstep⟩

theorem small_reached {n : ℕ} {c : Race} {es : List RaceEvent}
    (hsmall : Along system.step (fun _ e => startsBelow n e = true) empty es)
    (hrun : run system.step empty es = some c) : Small n c :=
  run_invariant (fun _ _ _ h he hstep => h.step he hstep)
    ⟨fun j t ht => (by cases ht), lined_empty, fun _ _ => rfl⟩ hsmall hrun

theorem along_of_test {n : ℕ} {c : Race} {es : List RaceEvent} (hc : Small n c)
    (h : Along system.step (fun c e => startsBelow n e = true ∧
      firmly n j userId c e = true) c es) :
    Along system.step (Firmly j userId) c es :=
  along_strengthen (fun _ _ _ hI he hstep => hI.step he.1 hstep)
    (fun _ _ hI he => firmly_of_test hI.lined hI.below he.2) hc h

def loggedIn : List RaceEvent := .start 0 (.create login) :: answered 0 6

def swept : RaceEvent := .start 1 (.invalidateAll "ana")

def sweeping : Race := reached empty (loggedIn ++ [swept])

def rotation : List RaceEvent := .start 2 (.rotate 0) :: answered 2 1

theorem sessions_ended_login :
    (1, .ok (.swept "ana")) ∈ answers system sweeping (answered 1 3) ∧
    (reached (reached sweeping (answered 1 3)) rotation).world.live 0 = none ∧
      (answers system (reached sweeping (answered 1 3)) rotation).filter (returns 0) = [] := by
  have hpast : run system.step empty loggedIn = some (reached empty loggedIn) :=
    run_reached (by decide +kernel)
  have hboth : run system.step empty (loggedIn ++ [swept]) = some sweeping :=
    run_reached (by decide +kernel)
  obtain ⟨c, hc, hbegun⟩ := run_append.mp hboth
  cases hpast.symm.trans hc
  obtain ⟨c, hstart, hc⟩ := run_cons.mp hbegun
  cases hc
  have hfirm : Along system.step (Firmly 1 "ana") sweeping (answered 1 3) :=
    along_of_test (small_reached (n := 2) (by decide +kernel) hboth) (by decide +kernel)
  have hreturned : (1, .ok (.swept "ana")) ∈ answers system sweeping (answered 1 3) := by
    decide +kernel
  have hissued : issuedAs (reached empty loggedIn).world 0 =
      some ⟨"ana", "ana@example.org", "HOGAR", 1, 0⟩ := by decide +kernel
  exact ⟨hreturned, sessions_ended hpast hstart hfirm (run_reached (by decide +kernel)) hreturned
    (run_reached (by decide +kernel)) (.issued hissued rfl)⟩

def days (n : ℕ) : RaceEvent := .outside (.pass (seconds (n * 24 * 60 * 60)))

/-- Two logins, and a rotation of the first token on the twentieth day, which leaves the set to
expire on the thirtieth. -/
def threeWeeks : List RaceEvent :=
  .start 0 (.create login) :: answered 0 6 ++ .start 1 (.create login) :: answered 1 6 ++
    days 20 :: .start 2 (.rotate 0) :: answered 2 7 ++ [days 11]

def sweepLater : List RaceEvent := .start 3 (.invalidateAll "ana") :: answered 3 1

def rotateLater : List RaceEvent := .start 4 (.rotate 4) :: answered 4 7

/-- The sweep finds no set on the day after, and the rotated token is exchanged when it has
returned. -/
theorem sessions_outlive_set : ∃ c₀ c₂ c₃,
    run system.step empty threeWeeks = some c₀ ∧ run system.step c₀ sweepLater = some c₂ ∧
    run system.step c₂ rotateLater = some c₃ ∧
    (3, .ok (.swept "ana")) ∈ answers system c₀ sweepLater ∧ OfLine c₀.world c₃.world "ana" 4 ∧
    ((answers system c₂ rotateLater).filter (returns 4)).length = 1 := by
  refine ⟨reached empty threeWeeks, reached (reached empty threeWeeks) sweepLater,
    reached (reached (reached empty threeWeeks) sweepLater) rotateLater,
      run_reached (by decide +kernel),
    run_reached (by decide +kernel),
      run_reached (by decide +kernel), by decide +kernel, ?_, by decide +kernel⟩
  have hissued : issuedAs (reached empty threeWeeks).world 4 =
      some ⟨"ana", "ana@example.org", "HOGAR", 1, seconds (20 * 24 * 60 * 60)⟩ := by decide +kernel
  exact .issued hissued rfl

end Livora.SessionSweeps
