import Livora.SessionStages

/-! The lines of sessions: a token is stored once, in a new family or in that of the token it
replaces, and all sessions of a family are of one user. This holds of every run, whatever the
order. -/

namespace Livora.SessionLines

open TransitionRuns EffectPrograms EffectPrograms.Action ProgramPools ProgramPools.System StageViews
open PoolAnswers AuthBooks SessionTokens SessionStages
open PinVerification (Delivery)

variable {w w' : World} {st : ℕ → Option Stage} {i : Op} {o : Delivery} {s s' : Stage} {j : ℕ}
  {userId : String} {refreshToken : Uuid}

/-! ### What was stored -/

/-- What was stored under the token, whether it is there or not. -/
def issuedAs (w : World) (refreshToken : Uuid) : Option SessionData :=
  (w.issued refreshToken).map Prod.fst

structure Sound (w : World) : Prop where
  below : ∀ t session, issuedAs w t = some session → t < w.drawn ∧ session.familyId < w.drawn
  stored : ∀ t entry, w.sessions t = some entry → w.spent t = false ∧
    issuedAs w t = some entry.session
  spent : ∀ t, w.spent t = true → ∃ session, issuedAs w t = some session
  owner : ∀ t t' session session', issuedAs w t = some session → issuedAs w t' = some session' →
    session.familyId = session'.familyId → session.userId = session'.userId
  descends : ∀ t session old, w.issued t = some (session, some old) →
    ∃ read, issuedAs w old = some read ∧ read.familyId = session.familyId

structure Knows (w : World) (s : Stage) : Prop where
  token : ∀ t, s.token = some t → t < w.drawn ∧ issuedAs w t = none
  fetched : ∀ t session, s.fetched = some (t, session) → issuedAs w t = some session
  fresh : ∀ f, s.fresh = some f → f < w.drawn ∧
    ∀ t session, issuedAs w t = some session → session.familyId ≠ f

structure Lined (w : World) (st : ℕ → Option Stage) : Prop where
  sound : Sound w
  knows : ∀ j s, st j = some s → Knows w s
  tokens : ∀ i j t, view Stage.token st i = some t → view Stage.token st j = some t → i = j
  families : ∀ i j f, view Stage.fresh st i = some f → view Stage.fresh st j = some f → i = j

structure Same (w w' : World) : Prop where
  sessions : w'.sessions = w.sessions
  issued : w'.issued = w.issued
  spent : w'.spent = w.spent
  drawn : w'.drawn = w.drawn

theorem Same.rfl : Same w w := ⟨Eq.refl _, Eq.refl _, Eq.refl _, Eq.refl _⟩

theorem Same.issuedAs (h : Same w w') : issuedAs w' = issuedAs w := by
  funext t
  rw [SessionLines.issuedAs, h.issued]
  exact Eq.refl _

theorem Knows.congr (h : Knows w s) (hissued : issuedAs w' = issuedAs w)
    (hdrawn : w.drawn ≤ w'.drawn) :
    Knows w' s := by
  refine ⟨fun t ht => ?_, fun t session ht => ?_, fun f hf => ?_⟩ <;> rw [hissued]
  · exact ⟨(h.token t ht).1.trans_le hdrawn, (h.token t ht).2⟩
  · exact h.fetched t session ht
  · exact ⟨(h.fresh f hf).1.trans_le hdrawn, (h.fresh f hf).2⟩

theorem Sound.congr (h : Sound w) (hsame : Same w w') : Sound w' := by
  refine ⟨fun t session ht => ?_, fun t entry ht => ?_, fun t ht =>
    ?_, fun t t' session session' ht ht' => ?_, fun t session old ht => ?_⟩
  · rw [hsame.drawn]
    exact h.below t session (hsame.issuedAs ▸ ht)
  · rw [hsame.spent, hsame.issuedAs]
    exact h.stored t entry (hsame.sessions ▸ ht)
  · rw [hsame.issuedAs]
    exact h.spent t (hsame.spent ▸ ht)
  · exact h.owner t t' session session' (hsame.issuedAs ▸ ht) (hsame.issuedAs ▸ ht')
  · rw [hsame.issuedAs]
    exact h.descends t session old (hsame.issued ▸ ht)

theorem Lined.congr (h : Lined w st) (hsame : Same w w') : Lined w' st where
  sound := h.sound.congr hsame
  knows k t ht := (h.knows k t ht).congr hsame.issuedAs hsame.drawn.ge
  tokens := h.tokens
  families := h.families

theorem Lined.update (h : Lined w st) {t : Option Stage} (ht : ∀ s, t = some s → Knows w s)
    (htoken : ∀ x, t.bind Stage.token = some x → view Stage.token st j = some x)
    (hfresh : ∀ x, t.bind Stage.fresh = some x → view Stage.fresh st j = some x) :
    Lined w (Function.update st j t) where
  sound := h.sound
  knows := knows_update (fun k t _ ht => h.knows k t ht) ht
  tokens := apart_take h.tokens fun x hx k hk he => hk (h.tokens k j x he (htoken x hx))
  families := apart_take h.families fun x hx k hk he => hk (h.families k j x he (hfresh x hx))

/-! ### One call -/

def Op.tokenless : Op → Bool
  | .now | .get _ _ | .smembers _ | .sadd _ _ | .expire _ | .srem _ _ | .delUser _ => true
  | _ => false

theorem same_after (h : Op.tokenless i = true) : Same w (w.after i o) := by
  have hwhole (w' : World) (hsame : Same w w') : Same w (if o.applied then w' else w) := by
    split
    · exact hsame
    · exact .rfl
  cases i with
  | randomUUID => cases h
  | del caller t => cases h
  | set t session replaces => cases h
  | _ => exact hwhole _ ⟨rfl, rfl, rfl, rfl⟩

theorem lined_draw (h : Lined w st) (hj : st j = some s) (hallowed : Allowed s .randomUUID) :
    Lined (w.after .randomUUID o) (Function.update st j (some (drew s w.drawn))) := by
  have hissued : issuedAs (w.after .randomUUID o) = issuedAs w := rfl
  have hdrawn : (w.after .randomUUID o).drawn = w.drawn + 1 := rfl
  have hnew : issuedAs w w.drawn = none := by
    cases he : issuedAs w w.drawn with
    | none => rfl
    | some session => exact absurd (h.sound.below _ _ he).1 (Nat.lt_irrefl _)
  have hknows := (h.knows j s hj).congr hissued (Nat.le_add_right _ _)
  have hfamily (t : Uuid) (session : SessionData) (ht : issuedAs w t = some session) :
      session.familyId ≠ w.drawn := ((h.sound.below t session ht).2).ne
  refine ⟨⟨fun t session ht => ?_, h.sound.stored, h.sound.spent, h.sound.owner, h.sound.descends⟩,
    knows_update (fun k t _ ht => (h.knows k t ht).congr hissued (Nat.le_add_right _ _))
      fun t ht => ?_,
    apart_take h.tokens fun x hx k hk he => ?_, apart_take h.families fun x hx k hk he => ?_⟩
  · rw [hdrawn]
    exact ⟨(h.sound.below t session ht).1.trans (Nat.lt_succ_self _),
      (h.sound.below t session ht).2.trans (Nat.lt_succ_self _)⟩
  · cases ht
    unfold drew
    split
    · refine ⟨fun t ht => ?_, hknows.fetched, hknows.fresh⟩
      cases ht
      exact ⟨Nat.lt_succ_self _, hnew⟩
    · refine ⟨hknows.token, hknows.fetched, fun f hf => ?_⟩
      have hfetched : s.fetched = none := (hallowed.resolve_left ‹_›).2
      simp only [Stage.fresh, hfetched] at hf
      cases hf
      exact ⟨Nat.lt_succ_self _, hfamily⟩
  · obtain ⟨t, ht, htoken⟩ := view_some.mp he
    unfold drew at hx
    split at hx
    · cases hx
      exact absurd ((h.knows k t ht).token _ htoken).1 (Nat.lt_irrefl _)
    · exact hk (h.tokens k j x he ((view_eq hj).trans hx))
  · obtain ⟨t, ht, hfresh⟩ := view_some.mp he
    unfold drew at hx
    split at hx
    · exact hk (h.families k j x he ((view_eq hj).trans hx))
    · have hfetched : s.fetched = none := (hallowed.resolve_left ‹_›).2
      simp only [Option.bind_some, Stage.fresh, hfetched] at hx
      cases hx
      exact absurd ((h.knows k t ht).fresh _ hfresh).1 (Nat.lt_irrefl _)

theorem sessions_del {caller : Caller} (t : Uuid) :
    (w.effect (.del caller refreshToken)).sessions t =
      if t = refreshToken then none else w.sessions t :=
  Function.update_apply _ _ _ _

theorem lined_delete {caller : Caller} (h : Lined w st)
    (hissued : caller = .rotation → ∃ session, issuedAs w refreshToken = some session) :
    Lined (w.effect (.del caller refreshToken)) st := by
  have hspent (t : Uuid) : (w.effect (.del caller refreshToken)).spent t = true →
      w.spent t = true ∨ caller = .rotation ∧ t = refreshToken := by
    change (if caller = .rotation then Function.update w.spent refreshToken true else w.spent) t =
        true → _
    split
    · by_cases ht : t = refreshToken
      · exact fun _ => .inr ⟨‹_›, ht⟩
      · rw [Function.update_of_ne ht]
        exact .inl
    · exact .inl
  refine ⟨⟨h.sound.below, fun t entry ht => ?_, fun t ht => ?_, h.sound.owner, h.sound.descends⟩,
    fun k t ht => (h.knows k t ht).congr rfl le_rfl, h.tokens, h.families⟩
  · rw [sessions_del] at ht
    obtain ⟨hne, hold⟩ := Option.ite_none_left_eq_some.mp ht
    refine ⟨?_, (h.sound.stored t entry hold).2⟩
    cases hs : (w.effect (.del caller refreshToken)).spent t with
    | false => rfl
    | true =>
      rcases hspent t hs with hs | ⟨-, he⟩
      · rw [(h.sound.stored t entry hold).1] at hs
        cases hs
      · exact absurd he hne
  · rcases hspent t ht with ht | ⟨hc, rfl⟩
    · exact h.sound.spent t ht
    · exact hissued hc

section Storing

variable {session : SessionData} {replaces : Option Uuid}

theorem sessions_set (t : Uuid) : (w.effect (.set refreshToken session replaces)).sessions t =
    if t = refreshToken then some ⟨session, w.now + seconds refreshTtlSeconds⟩ else w.sessions t :=
  Function.update_apply _ _ _ _

theorem issued_set (t : Uuid) : (w.effect (.set refreshToken session replaces)).issued t =
    if t = refreshToken then some (session, replaces) else w.issued t :=
  Function.update_apply _ _ _ _

theorem issuedAs_set (t : Uuid) :
    issuedAs (w.effect (.set refreshToken session replaces)) t =
      if t = refreshToken then some session else issuedAs w t := by
  rw [issuedAs, issued_set]
  split
  · rfl
  · rfl

theorem issuedAs_kept (hunissued : issuedAs w refreshToken = none) {t : Uuid} {d : SessionData}
    (ht : issuedAs w t = some d) :
    issuedAs (w.effect (.set refreshToken session replaces)) t = some d := by
  rw [issuedAs_set, if_neg, ht]
  rintro rfl
  rw [hunissued] at ht
  cases ht

theorem issuedAs_cases {t : Uuid} {d : SessionData}
    (ht : issuedAs (w.effect (.set refreshToken session replaces)) t = some d) :
    t = refreshToken ∧ d = session ∨ issuedAs w t = some d := by
  rw [issuedAs_set] at ht
  split at ht
  · exact .inl ⟨‹_›, (Option.some.inj ht).symm⟩
  · exact .inr ht

/-- The family of the session is new, or that of a session that was issued. -/
def Continues (w : World) (s : Stage) (session : SessionData) : Prop :=
  s.fresh = some session.familyId ∨ ∃ t read, issuedAs w t = some read ∧
    session.familyId = read.familyId ∧ session.userId = read.userId

theorem continues_of_allowed (h : Knows w s)
    (hallowed : Allowed s (.set refreshToken session replaces)) :
    Continues w s session := by
  obtain ⟨-, hfamily, hinherits⟩ := hallowed
  cases replaces with
  | none => exact .inl ((if_pos hinherits).trans hfamily)
  | some old =>
    obtain ⟨read, hfetched, -, huser, hsame⟩ := hinherits
    exact .inr ⟨old, read, h.fetched old read hfetched, hsame, huser⟩

theorem Continues.user (hc : Continues w s session) (h : Sound w) (hknows : Knows w s) {t : Uuid}
    {d : SessionData} (ht : issuedAs w t = some d) (hf : d.familyId = session.familyId) :
    d.userId = session.userId := by
  rcases hc with hfresh | ⟨t', read, hread, hsame, huser⟩
  · exact absurd hf ((hknows.fresh _ hfresh).2 t d ht)
  · rw [huser]
    exact h.owner t t' d read ht hread (hf.trans hsame)

theorem Continues.below (hc : Continues w s session) (h : Sound w) (hknows : Knows w s) :
    session.familyId < w.drawn := by
  rcases hc with hfresh | ⟨t', read, hread, hsame, -⟩
  · exact (hknows.fresh _ hfresh).1
  · rw [hsame]
    exact (h.below t' read hread).2

theorem sound_set (h : Sound w) (hknows : Knows w s)
    (hallowed : Allowed s (.set refreshToken session replaces)) :
    Sound (w.effect (.set refreshToken session replaces)) := by
  have hcontinues := continues_of_allowed hknows hallowed
  obtain ⟨htoken, -, hinherits⟩ := hallowed
  obtain ⟨hbelow, hunissued⟩ := hknows.token _ htoken
  refine ⟨fun t d ht => ?below, fun t entry ht => ?stored, fun t ht => ?spent,
    fun t t' d d' ht ht' hf => ?owner, fun t d old ht => ?descends⟩
  case below =>
    rcases issuedAs_cases ht with ⟨rfl, rfl⟩ | ht
    · exact ⟨hbelow, hcontinues.below h hknows⟩
    · exact h.below t d ht
  case stored =>
    rw [sessions_set] at ht
    split at ht
    · rename_i he
      subst he
      cases ht
      refine ⟨?_, by rw [issuedAs_set, if_pos rfl]⟩
      cases hs : w.spent t with
      | false => exact hs
      | true =>
        obtain ⟨d, hd⟩ := h.spent t hs
        rw [hunissued] at hd
        cases hd
    · obtain ⟨hspent, hissued⟩ := h.stored t entry ht
      exact ⟨hspent, issuedAs_kept hunissued hissued⟩
  case spent =>
    obtain ⟨d, hd⟩ := h.spent t ht
    exact ⟨d, issuedAs_kept hunissued hd⟩
  case owner =>
    rcases issuedAs_cases ht with ⟨-, rfl⟩ | hd <;> rcases issuedAs_cases ht' with ⟨-, rfl⟩ | hd'
    · rfl
    · exact (hcontinues.user h hknows hd' hf.symm).symm
    · exact hcontinues.user h hknows hd hf
    · exact h.owner t t' d d' hd hd' hf
  case descends =>
    rw [issued_set] at ht
    split at ht
    · cases ht
      obtain ⟨read, hfetched, -, -, hline⟩ := hinherits
      exact ⟨read, issuedAs_kept hunissued (hknows.fetched old read hfetched), hline.symm⟩
    · obtain ⟨read, hread, hline⟩ := h.descends t d old ht
      exact ⟨read, issuedAs_kept hunissued hread, hline⟩

/-- Another program has neither the token nor the family of the session. -/
theorem knows_set (h : Lined w st) (hj : st j = some s)
    (hallowed : Allowed s (.set refreshToken session replaces)) {k : ℕ} {t : Stage} (hk : k ≠ j)
    (ht : st k = some t) : Knows (w.effect (.set refreshToken session replaces)) t := by
  have hcontinues := continues_of_allowed (h.knows j s hj) hallowed
  have htoken := hallowed.1
  have hunissued := ((h.knows j s hj).token _ htoken).2
  have hother := h.knows k t ht
  refine ⟨fun x hx => ⟨(hother.token x hx).1, ?_⟩,
    fun x d hx => issuedAs_kept hunissued (hother.fetched x d hx),
    fun f hf => ⟨(hother.fresh f hf).1, fun x d hx => ?_⟩⟩
  · have hx' : x ≠ refreshToken := by
      rintro rfl
      exact hk (h.tokens k j x ((view_eq ht).trans hx) ((view_eq hj).trans htoken))
    rw [issuedAs_set, if_neg hx']
    exact (hother.token x hx).2
  · rcases issuedAs_cases hx with ⟨rfl, rfl⟩ | hx
    · rintro rfl
      rcases hcontinues with hfresh | ⟨t', read, hread, hsame, -⟩
      · exact hk (h.families k j _ ((view_eq ht).trans hf) ((view_eq hj).trans hfresh))
      · exact (hother.fresh _ hf).2 t' read hread hsame.symm
    · exact (hother.fresh f hf).2 x d hx

theorem lined_set (h : Lined w st) (hj : st j = some s)
    (hallowed : Allowed s (.set refreshToken session replaces)) :
    Lined (w.effect (.set refreshToken session replaces))
      (Function.update st j (some { s with token := none, family := none })) := by
  have hknows := h.knows j s hj
  refine ⟨sound_set h.sound hknows hallowed,
    knows_update (fun k t hk ht => knows_set h hj hallowed hk ht) fun t ht => ?_,
    apart_release h.tokens rfl, apart_release h.families (ite_self none)⟩
  cases ht
  refine ⟨fun x hx => (by cases hx),
    fun x d hx => issuedAs_kept (hknows.token _ hallowed.1).2 (hknows.fetched x d hx),
      fun f hf => ?_⟩
  have hnone : none = some f := (ite_self none).symm.trans hf
  cases hnone

end Storing

theorem Lined.same (h : Lined w st) (hj : st j = some s) {r : Option (String × List Uuid)} :
    Lined w (Function.update st j (some { s with remaining := r })) := by
  have hknows := h.knows j s hj
  refine h.update (fun t ht => ?_) (fun x hx => (view_eq hj).trans hx) fun x hx =>
    (view_eq hj).trans hx
  cases ht
  exact ⟨hknows.token, hknows.fetched, hknows.fresh⟩

theorem live_stored {session : SessionData} (h : w.live refreshToken = some session) :
    ∃ entry, w.sessions refreshToken = some entry ∧ entry.session = session ∧
      w.now < entry.expiresAt := by
  obtain ⟨entry, hentry, rfl⟩ := Option.map_eq_some_iff.mp h
  obtain ⟨hstored, hlater⟩ := Option.filter_eq_some_iff.mp hentry
  exact ⟨entry, hstored, rfl, of_decide_eq_true hlater⟩

theorem Sound.live (h : Sound w) {session : SessionData}
    (hlive : w.live refreshToken = some session) :
    issuedAs w refreshToken = some session := by
  obtain ⟨entry, hentry, rfl, -⟩ := live_stored hlive
  exact (h.stored refreshToken entry hentry).2

theorem next_get {found : Option SessionData} : next .first (.get .rotation refreshToken)
    (.ok found) =
    { Stage.first with fetched := found.map fun d => (refreshToken, d) } := rfl

theorem lined_get (h : Lined w st) (hj : st j = some s)
    (hallowed : Allowed s (.get .rotation refreshToken)) :
    Lined w (Function.update st j
      (some (next s (.get .rotation refreshToken) (w.reply (.get .rotation refreshToken) o)))) := by
  obtain rfl : s = .first := hallowed
  cases hreply : w.reply (.get .rotation refreshToken) o with
  | error e => exact h.same hj
  | ok found =>
    have hlive : w.live refreshToken = found := (Delivery.answer_ok hreply).2
    have hfresh : Stage.fresh { Stage.first with
        fetched := found.map fun d => (refreshToken, d) } = none := ite_self none
    rw [next_get]
    refine h.update (fun t ht => ?_) (fun x hx => (by cases hx)) fun x hx => ?_
    · cases ht
      refine ⟨fun x hx => (by cases hx), fun x d hx => ?_, fun f hf => ?_⟩
      · obtain ⟨d', hd, hpair⟩ := Option.map_eq_some_iff.mp hx
        cases hpair
        exact h.sound.live (hlive.trans hd)
      · rw [hfresh] at hf
        cases hf
    · rw [Option.bind_some, hfresh] at hx
      cases hx

theorem lined_del {caller : Caller} (h : Lined w st) (hj : st j = some s)
    (hallowed : Allowed s (.del caller refreshToken)) (r : Except Failure Unit) :
    Lined (w.after (.del caller refreshToken) o)
      (Function.update st j (some (next s (.del caller refreshToken) r))) := by
  have hissued : caller = .rotation → ∃ session, issuedAs w refreshToken = some session := by
    rintro rfl
    obtain ⟨-, -, -, session, hfetched⟩ := hallowed
    exact ⟨session, (h.knows j s hj).fetched _ _ hfetched⟩
  have hdeleted : Lined (w.after (.del caller refreshToken) o) st := by
    by_cases happlied : o.applied = true
    · rw [show w.after (.del caller refreshToken) o =
        w.effect (.del caller refreshToken) from if_pos happlied]
      exact lined_delete h hissued
    · rw [show w.after (.del caller refreshToken) o = w from if_neg happlied]
      exact h
  have hknows := hdeleted.knows j s hj
  cases caller with
  | sweep => exact hdeleted.same hj
  | logout => exact hdeleted.same hj
  | rotation =>
    cases r with
    | error e => exact hdeleted.same hj
    | ok u =>
      obtain ⟨htoken, -, -, session, hfetched⟩ := hallowed
      have hfresh : Stage.fresh (next s (.del .rotation refreshToken) (.ok ())) = none := by
        simp [Stage.fresh, next, hfetched]
      refine hdeleted.update (fun t ht => ?_) (fun x hx => ?_) fun x hx => ?_
      · cases ht
        refine ⟨hknows.token, hknows.fetched, fun f hf => ?_⟩
        rw [hfresh] at hf
        cases hf
      · exact (view_eq hj).trans hx
      · rw [Option.bind_some, hfresh] at hx
        cases hx

theorem lined_unset (h : Lined w st) (hj : st j = some s) :
    Lined w (Function.update st j (some { s with token := none, family := none })) := by
  have hfresh : Stage.fresh { s with token := none, family := none } = none := ite_self none
  refine h.update (fun t ht => ?_) (fun x hx => (by cases hx)) fun x hx => ?_
  · cases ht
    refine ⟨fun x hx => (by cases hx), (h.knows j s hj).fetched, fun f hf => ?_⟩
    rw [hfresh] at hf
    cases hf
  · rw [Option.bind_some, hfresh] at hx
    cases hx

theorem call_lined (h : Lined w st) (hj : st j = some s) (hallowed : Allowed s i) :
    Lined (w.after i o) (Function.update st j (some (next s i (w.reply i o)))) := by
  cases i with
  | randomUUID => exact lined_draw h hj hallowed
  | del caller t => exact lined_del h hj hallowed _
  | set t session replaces =>
    by_cases happlied : o.applied = true
    · rw [show w.after (.set t session replaces) o =
        w.effect (.set t session replaces) from if_pos happlied]
      exact lined_set h hj hallowed
    · rw [show w.after (.set t session replaces) o = w from if_neg happlied]
      exact lined_unset h hj
  | get caller t =>
    have hsame : Lined (w.after (.get caller t) o) st := h.congr (same_after rfl)
    have hafter : w.after (.get caller t) o = w := ite_self w
    cases caller with
    | rotation =>
      rw [hafter]
      exact lined_get h hj hallowed
    | logout => exact hsame.same hj
    | sweep => exact hsame.same hj
  | smembers userId =>
    have hsame : Lined (w.after (.smembers userId) o) st := h.congr (same_after rfl)
    cases hreply : w.reply (.smembers userId) o with
    | error e => exact hsame.same hj
    | ok tokens => exact hsame.same hj
  | now =>
    have hsame : Lined (w.after .now o) st := h.congr (same_after rfl)
    exact hsame.same hj
  | sadd userId t =>
    have hsame : Lined (w.after (.sadd userId t) o) st := h.congr (same_after rfl)
    exact hsame.same hj
  | expire userId =>
    have hsame : Lined (w.after (.expire userId) o) st := h.congr (same_after rfl)
    exact hsame.same hj
  | srem userId t =>
    have hsame : Lined (w.after (.srem userId t) o) st := h.congr (same_after rfl)
    exact hsame.same hj
  | delUser userId =>
    have hsame : Lined (w.after (.delUser userId) o) st := h.congr (same_after rfl)
    exact hsame.same hj

theorem lined_outside (h : Lined w st) {d : Outside} (hw : outside w d = some w') :
    Lined w' st := by
  cases d
  cases hw
  exact h.congr ⟨rfl, rfl, rfl, rfl⟩

theorem lined_start (h : Lined w st) : Lined w (Function.update st j (some .first)) := by
  refine h.update (fun t ht => ?_) (fun x hx => (by cases hx)) fun x hx => (by cases hx)
  cases ht
  exact ⟨fun x hx => (by cases hx), fun x d hx => (by cases hx), fun x hx => (by cases hx)⟩

theorem lined_gone (h : Lined w st) : Lined w (Function.update st j none) :=
  h.update (fun t ht => (by cases ht)) (fun x hx => (by cases hx)) fun x hx => (by cases hx)

theorem lined_empty : Lined empty.world (active empty) where
  sound := ⟨fun t d ht => (by cases ht), fun t e ht => (by cases ht), fun t ht => (by cases ht),
    fun t t' d d' ht => (by cases ht), fun t d old ht => (by cases ht)⟩
  knows k t ht := by cases ht
  tokens a b t ha := by cases ha
  families a b t ha := by cases ha

theorem keeps_all (request : Request) :
    Keeps protocol (fun _ _ => True) .first (handle request).run :=
  Keeps.mono (fun _ _ _ => trivial) (keeps_program request)

theorem run_lined {c c' : Race} {es : List RaceEvent} (hd : system.Disciplined c)
    (h : Lined c.world (active c)) (hrun : run system.step c es = some c') :
    Lined c'.world (active c') := by
  refine run_active (C := fun _ _ => True) keeps_all (fun w st j h _ => lined_start h)
    (fun c j o s i h hj _ hallowed _ => call_lined h hj hallowed) (fun w st j h => lined_gone h)
    (fun c d w h _ hw => lined_outside h hw) hd h ?_ hrun
  exact along_iff.mpr fun _ _ _ _ _ _ => trivial

end Livora.SessionLines
