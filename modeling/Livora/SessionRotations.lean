import Livora.SessionLines

/-! Rotations of refresh tokens at once. A token is exchanged at most once and a family has one live
token at most, along every run in which a rotation deletes its token before any other rotation has
deleted it. -/

namespace Livora.SessionRotations

open TransitionRuns EffectPrograms EffectPrograms.Action ProgramPools ProgramPools.System StageViews
open PoolAnswers AuthBooks SessionTokens SessionStages SessionLines
open PinVerification (Delivery)

variable {h : List (ℕ × Except Failure Answer)} {w w' : World} {st : ℕ → Option Stage} {i : Op}
  {o : Delivery} {s s' : Stage} {j : ℕ} {refreshToken : Uuid}

/-! ### One token for each family -/

def returns (refreshToken : Uuid) (x : ℕ × Except Failure Answer) : Bool :=
  match x.2 with
  | .ok (.rotated oldRefreshToken _ _) => oldRefreshToken == refreshToken
  | _ => false

structure Single (w : World) (st : ℕ → Option Stage) : Prop where
  heads : ∀ t t' d d', issuedAs w t = some d → issuedAs w t' = some d' → d.familyId = d'.familyId →
    w.spent t = false → w.spent t' = false → t = t'
  owned : ∀ j f, view Stage.family st j = some f → f < w.drawn ∧
    ∀ t d, issuedAs w t = some d → d.familyId = f → w.spent t = true
  families : ∀ i j f, view Stage.family st i = some f → view Stage.family st j = some f → i = j
  deleted : ∀ j t, view Stage.spent st j = some t → w.spent t = true
  deleters : ∀ i j t, view Stage.spent st i = some t → view Stage.spent st j = some t → i = j

/-- A token that was exchanged is gone, and no program is about to say that it exchanged it. -/
structure Exchanged (h : List (ℕ × Except Failure Answer)) (w : World) (st : ℕ → Option Stage) :
    Prop where
  once : ∀ t, (h.filter (returns t)).length ≤ 1
  gone : ∀ t, h.filter (returns t) ≠ [] → w.spent t = true ∧ ∀ j, view Stage.spent st j ≠ some t

structure Kept (h : List (ℕ × Except Failure Answer)) (w : World) (st : ℕ → Option Stage) :
    Prop where
  lined : Lined w st
  single : Single w st
  exchanged : Exchanged h w st

theorem Single.congr (hs : Single w st) (hsame : Same w w') : Single w' st := by
  refine ⟨fun t t' d d' ht ht' hf hx hx' => ?_, fun j f hf => ?_, hs.families, fun j t ht =>
    ?_, hs.deleters⟩
  · rw [hsame.spent] at hx hx'
    exact hs.heads t t' d d' (hsame.issuedAs ▸ ht) (hsame.issuedAs ▸ ht') hf hx hx'
  · rw [hsame.drawn, hsame.issuedAs, hsame.spent]
    exact hs.owned j f hf
  · rw [hsame.spent]
    exact hs.deleted j t ht

theorem Single.update (hs : Single w st) {t : Option Stage}
    (hfamily : ∀ x, t.bind Stage.family = some x → view Stage.family st j = some x)
    (hspent : ∀ x, t.bind Stage.spent = some x → view Stage.spent st j = some x) :
    Single w (Function.update st j t) := by
  have hfamilies {k : ℕ} {f : Uuid} (hk : view Stage.family (Function.update st j t) k = some f) :
      view Stage.family st k = some f := by
    rcases view_cases hk with ⟨rfl, he⟩ | ⟨-, he⟩
    · exact hfamily f he
    · exact he
  have hdeleted {k : ℕ} {x : Uuid} (hk : view Stage.spent (Function.update st j t) k = some x) :
      view Stage.spent st k = some x := by
    rcases view_cases hk with ⟨rfl, he⟩ | ⟨-, he⟩
    · exact hspent x he
    · exact he
  exact ⟨hs.heads, fun k f hk => hs.owned k f (hfamilies hk),
    fun a b f ha hb => hs.families a b f (hfamilies ha) (hfamilies hb),
    fun k x hk => hs.deleted k x (hdeleted hk),
    fun a b x ha hb => hs.deleters a b x (hdeleted ha) (hdeleted hb)⟩

theorem Exchanged.update (he : Exchanged h w st) {t : Option Stage}
    (hspent : ∀ x, t.bind Stage.spent = some x → view Stage.spent st j = some x ∨ w.spent x = false)
    (hmono : ∀ x, w.spent x = true → w'.spent x = true) :
    Exchanged h w' (Function.update st j t) := by
  refine ⟨he.once, fun x hx => ?_⟩
  obtain ⟨hgone, hnone⟩ := he.gone x hx
  refine ⟨hmono x hgone, fun k hk => ?_⟩
  rcases view_cases hk with ⟨rfl, hnow⟩ | ⟨-, hold⟩
  · rcases hspent x hnow with hold | hfirst
    · exact hnone k hold
    · rw [hgone] at hfirst
      cases hfirst
  · exact hnone k hold

/-! ### One call -/

def Firm (w : World) (o : Delivery) : Op → Prop
  | .del .rotation refreshToken => o.applied = true → w.spent refreshToken = false
  | _ => True

def Firmly (c : Race) : RaceEvent → Prop
  | .advance j o => ∀ i, pending c j = some i → Firm c.world o i
  | _ => True

theorem kept_same (hk : Kept h w st) (hj : st j = some s) {s' : Stage} (hsame : Same w w')
    (hlined : Lined w' (Function.update st j (some s'))) (hfamily : s'.family = s.family)
    (hspent : s'.spent = s.spent) : Kept h w' (Function.update st j (some s')) where
  lined := hlined
  single := (hk.single.congr hsame).update
    (fun x hx => by rw [view_eq hj, ← hfamily]; exact hx)
    fun x hx => by rw [view_eq hj, ← hspent]; exact hx
  exchanged := hk.exchanged.update (fun x hx => .inl (by rw [view_eq hj, ← hspent]; exact hx))
    fun x hx => by rw [hsame.spent]; exact hx

theorem single_draw (hl : Lined w st) (hs : Single w st) (hj : st j = some s) :
    Single (w.after .randomUUID o) (Function.update st j (some (drew s w.drawn))) := by
  have hspent : (drew s w.drawn).spent = s.spent := by
    unfold drew
    split <;> rfl
  have hview : view Stage.spent (Function.update st j (some (drew s w.drawn))) =
      view Stage.spent st :=
    view_keep (by rw [view_eq hj, Option.bind_some, hspent])
  have hfamily {k : ℕ} {f : Uuid}
      (hk : view Stage.family (Function.update st j (some (drew s w.drawn))) k = some f) :
      k = j ∧ f = w.drawn ∨ view Stage.family st k = some f := by
    rcases view_cases hk with ⟨rfl, he⟩ | ⟨-, he⟩
    · unfold drew at he
      split at he
      · exact .inr ((view_eq hj).trans he)
      · exact .inl ⟨rfl, (Option.some.inj he).symm⟩
    · exact .inr he
  refine ⟨hs.heads, fun k f hk => ?_, fun a b f ha hb => ?_, ?_, ?_⟩
  · rcases hfamily hk with ⟨rfl, rfl⟩ | hk
    · exact ⟨Nat.lt_succ_self _, fun t d ht hf => absurd hf (hl.sound.below t d ht).2.ne⟩
    · exact ⟨(hs.owned k f hk).1.trans (Nat.lt_succ_self _), (hs.owned k f hk).2⟩
  · rcases hfamily ha with ⟨rfl, hfa⟩ | hold <;> rcases hfamily hb with ⟨rfl, hfb⟩ | hold'
    · rfl
    · exact absurd (hfa ▸ (hs.owned b f hold').1) (Nat.lt_irrefl _)
    · exact absurd (hfb ▸ (hs.owned a f hold).1) (Nat.lt_irrefl _)
    · exact hs.families a b f hold hold'
  · rw [hview]
    exact hs.deleted
  · rw [hview]
    exact hs.deleters

theorem spent_del {caller : Caller} (t : Uuid) : (w.effect (.del caller refreshToken)).spent t =
    if caller = .rotation ∧ t = refreshToken then true else w.spent t := by
  by_cases hc : caller = .rotation
  · subst hc
    simp [World.effect, Function.update_apply]
  · simp [World.effect, hc]

theorem single_delete (hs : Single w st) {caller : Caller} :
    Single (w.effect (.del caller refreshToken)) st := by
  have hold {t : Uuid} (ht : (w.effect (.del caller refreshToken)).spent t = false) : w.spent t =
      false := by
    rw [spent_del] at ht
    split at ht
    · cases ht
    · exact ht
  have hmono {t : Uuid} (ht : w.spent t = true) : (w.effect (.del caller refreshToken)).spent t =
      true := by
    rw [spent_del]
    split
    · rfl
    · exact ht
  exact ⟨fun t t' d d' ht ht' hf hx hx' => hs.heads t t' d d' ht ht' hf (hold hx) (hold hx'),
    fun k f hk => ⟨(hs.owned k f hk).1, fun t d ht hf => hmono ((hs.owned k f hk).2 t d ht hf)⟩,
    hs.families, fun k t hk => hmono (hs.deleted k t hk), hs.deleters⟩

theorem single_spend (hl : Lined w st) (hs : Single w st) {session : SessionData}
    (hissued : issuedAs w refreshToken = some session) (hfirst : w.spent refreshToken = false)
    {s' : Stage} (hfamily : s'.family = some session.familyId)
    (hspent : s'.spent = some refreshToken) :
    Single (w.effect (.del .rotation refreshToken)) (Function.update st j (some s')) := by
  have hdeleted : Single (w.effect (.del .rotation refreshToken)) st := single_delete hs
  have hnow : (w.effect (.del .rotation refreshToken)).spent refreshToken = true := by
    rw [spent_del, if_pos ⟨rfl, rfl⟩]
  have hfamilies {k : ℕ} (hk : view Stage.family st k = some session.familyId) : False := by
    have hgone := (hs.owned k _ hk).2 refreshToken session hissued rfl
    rw [hfirst] at hgone
    cases hgone
  refine ⟨hdeleted.heads, fun k f hk => ?_, apart_take hs.families fun f hf k _ hk =>
    ?_, fun k t hk => ?_, apart_take hs.deleters fun t ht k _ hk => ?_⟩
  · rcases view_cases hk with ⟨rfl, he⟩ | ⟨-, he⟩
    · cases hfamily.symm.trans he
      refine ⟨(hl.sound.below _ _ hissued).2, fun t d ht hf => ?_⟩
      cases hx : w.spent t with
      | true =>
        rw [spent_del, hx]
        exact ite_self true
      | false =>
        rw [hs.heads t refreshToken d session ht hissued hf hx hfirst]
        exact hnow
    · exact hdeleted.owned k f he
  · cases hfamily.symm.trans hf
    exact hfamilies hk
  · rcases view_cases hk with ⟨rfl, he⟩ | ⟨-, he⟩
    · cases hspent.symm.trans he
      exact hnow
    · exact hdeleted.deleted k t he
  · cases hspent.symm.trans ht
    rw [hs.deleted k _ hk] at hfirst
    cases hfirst

theorem single_set (hs : Single w st) (hj : st j = some s) {session : SessionData}
    {replaces : Option Uuid} (hallowed : Allowed s (.set refreshToken session replaces)) :
    Single (w.effect (.set refreshToken session replaces))
      (Function.update st j (some { s with token := none, family := none })) := by
  obtain ⟨htoken, hfamily, -⟩ := hallowed
  have hmine : view Stage.family st j = some session.familyId := (view_eq hj).trans hfamily
  have hcases {t : Uuid} {d : SessionData}
      (ht : issuedAs (w.effect (.set refreshToken session replaces)) t = some d) :
      t = refreshToken ∧ d = session ∨ issuedAs w t = some d := by
    rw [issuedAs_set] at ht
    split at ht
    · exact .inl ⟨‹_›, (Option.some.inj ht).symm⟩
    · exact .inr ht
  have hheads {t : Uuid} {d : SessionData} (ht : issuedAs w t = some d)
      (hf : d.familyId = session.familyId) (hx : w.spent t = false) : False := by
    rw [(hs.owned j _ hmine).2 t d ht hf] at hx
    cases hx
  have hview : view Stage.spent
    (Function.update st j (some { s with token := none, family := none })) =
      view Stage.spent st := view_keep ((view_eq hj).trans rfl)
  refine ⟨fun t t' d d' ht ht' hf hx hx' => ?_, fun k f hk =>
    ?_, apart_release hs.families rfl, ?_, ?_⟩
  · rcases hcases ht with ⟨rfl, rfl⟩ | hd <;> rcases hcases ht' with ⟨rfl, rfl⟩ | hd'
    · rfl
    · exact (hheads hd' hf.symm hx').elim
    · exact (hheads hd hf hx).elim
    · exact hs.heads t t' d d' hd hd' hf hx hx'
  · obtain ⟨hne, hk⟩ := view_release rfl hk
    refine ⟨(hs.owned k f hk).1, fun t d ht hf => ?_⟩
    rcases hcases ht with ⟨rfl, rfl⟩ | hd
    · subst hf
      exact absurd (hs.families k j _ hk hmine) hne
    · exact (hs.owned k f hk).2 t d hd hf
  · rw [hview]
    exact hs.deleted
  · rw [hview]
    exact hs.deleters

theorem call_draw (hk : Kept h w st) (hj : st j = some s) (hallowed : Allowed s .randomUUID) :
    Kept h (w.after .randomUUID o)
      (Function.update st j (some (next s .randomUUID (w.reply .randomUUID o)))) where
  lined := lined_draw hk.lined hj hallowed
  single := single_draw hk.lined hk.single hj
  exchanged := hk.exchanged.update (fun x hx => .inl ((view_eq hj).trans (by
    have hsame : (drew s w.drawn).spent = s.spent := by
      unfold drew
      split <;> rfl
    exact hsame.symm.trans hx))) fun _ hx => hx

theorem call_del (hk : Kept h w st) (hj : st j = some s) {caller : Caller}
    (hallowed : Allowed s (.del caller refreshToken))
    (hfirm : Firm w o (.del caller refreshToken)) :
    Kept h (w.after (.del caller refreshToken) o) (Function.update st j
      (some (next s (.del caller refreshToken) (w.reply (.del caller refreshToken) o)))) := by
  have hlined := call_lined (o := o) hk.lined hj hallowed
  by_cases happlied : o.applied = true
  swap
  · have hafter : w.after (.del caller refreshToken) o = w := if_neg happlied
    have hreply : w.reply (.del caller refreshToken) o = .error .outside :=
      if_neg fun hdone => happlied (applied_of_done hdone)
    rw [hafter, hreply] at hlined ⊢
    cases caller <;> exact kept_same hk hj .rfl hlined rfl rfl
  have hafter : w.after (.del caller refreshToken) o = w.effect (.del caller refreshToken) :=
    if_pos happlied
  rw [hafter] at hlined ⊢
  have hmono (x : Uuid) (hx : w.spent x = true) :
      (w.effect (.del caller refreshToken)).spent x = true := by
    rw [spent_del, hx]
    exact ite_self true
  have hkeep {s' : Stage} (hsame : s'.family = s.family ∧ s'.spent = s.spent)
      (hl : Lined (w.effect (.del caller refreshToken)) (Function.update st j (some s'))) :
      Kept h (w.effect (.del caller refreshToken)) (Function.update st j (some s')) := by
    refine ⟨hl, (single_delete hk.single).update (fun x hx => ?_) fun x hx => ?_,
      hk.exchanged.update (fun x hx => .inl ?_) hmono⟩
    · rw [view_eq hj, ← hsame.1]
      exact hx
    · rw [view_eq hj, ← hsame.2]
      exact hx
    · rw [view_eq hj, ← hsame.2]
      exact hx
  cases caller with
  | logout => exact hkeep ⟨rfl, rfl⟩ hlined
  | sweep => exact hkeep ⟨rfl, rfl⟩ hlined
  | rotation =>
    have hfirst := hfirm happlied
    obtain ⟨-, -, -, session, hfetched⟩ := hallowed
    cases hreply : w.reply (.del .rotation refreshToken) o with
    | error e =>
      rw [hreply] at hlined
      exact hkeep ⟨rfl, rfl⟩ hlined
    | ok u =>
      rw [hreply] at hlined
      have hfamily : (next s (.del .rotation refreshToken) (.ok u)).family =
          some session.familyId := by
        change s.fetched.map _ = _
        rw [hfetched]
        rfl
      refine ⟨hlined, single_spend hk.lined hk.single ((hk.lined.knows j s hj).fetched _ _ hfetched)
        hfirst hfamily rfl, hk.exchanged.update (fun x hx => .inr ?_) hmono⟩
      cases hx
      exact hfirst

theorem call_set (hk : Kept h w st) (hj : st j = some s) {session : SessionData}
    {replaces : Option Uuid} (hallowed : Allowed s (.set refreshToken session replaces)) :
    Kept h (w.after (.set refreshToken session replaces) o) (Function.update st j
      (some (next s (.set refreshToken session replaces)
        (w.reply (.set refreshToken session replaces) o)))) := by
  have hlined := call_lined (o := o) hk.lined hj hallowed
  have hspent : view Stage.spent st j = s.spent := view_eq hj
  by_cases happlied : o.applied = true
  · have hafter : w.after (.set refreshToken session replaces) o =
        w.effect (.set refreshToken session replaces) := if_pos happlied
    rw [hafter] at hlined ⊢
    exact ⟨hlined, single_set hk.single hj hallowed,
      hk.exchanged.update (fun x hx => .inl (hspent.trans hx)) fun _ hx => hx⟩
  · have hafter : w.after (.set refreshToken session replaces) o = w := if_neg happlied
    rw [hafter] at hlined ⊢
    exact ⟨hlined, hk.single.update (fun x hx => (by cases hx)) fun x hx => hspent.trans hx,
      hk.exchanged.update (fun x hx => .inl (hspent.trans hx)) fun _ hx => hx⟩

theorem tokenless_stage (htokenless : Op.tokenless i = true)
    (r : Except Failure (Reply i)) :
    (next s i r).family = s.family ∧ (next s i r).spent = s.spent := by
  unfold next
  split <;> first | exact ⟨rfl, rfl⟩ | cases htokenless

theorem call_kept (hk : Kept h w st) (hj : st j = some s) (hallowed : Allowed s i)
    (hfirm : Firm w o i) :
    Kept h (w.after i o) (Function.update st j (some (next s i (w.reply i o)))) := by
  have hquiet (htokenless : Op.tokenless i = true) :
      Kept h (w.after i o) (Function.update st j (some (next s i (w.reply i o)))) := by
    obtain ⟨hfamily, hspent⟩ := tokenless_stage htokenless (w.reply i o)
    exact kept_same hk hj (same_after htokenless) (call_lined hk.lined hj hallowed) hfamily hspent
  cases i with
  | randomUUID => exact call_draw hk hj hallowed
  | del caller t => exact call_del hk hj hallowed hfirm
  | set t session replaces => exact call_set hk hj hallowed
  | _ => exact hquiet rfl

/-! ### Runs -/

theorem kept_start (hk : Kept h w st) :
    Kept h w (Function.update st j (some .first)) :=
  ⟨lined_start hk.lined, hk.single.update (fun x hx => (by cases hx)) fun x hx => (by cases hx),
    hk.exchanged.update (fun x hx => (by cases hx)) fun _ hx => hx⟩

theorem kept_gone (hk : Kept h w st) : Kept h w (Function.update st j none) :=
  ⟨lined_gone hk.lined, hk.single.update (fun x hx => (by cases hx)) fun x hx => (by cases hx),
    hk.exchanged.update (fun x hx => (by cases hx)) fun _ hx => hx⟩

theorem kept_outside (hk : Kept h w st) {d : Outside} (hw : outside w d = some w') :
    Kept h w' st := by
  have hlined := lined_outside hk.lined hw
  cases d
  cases hw
  exact ⟨hlined, hk.single.congr ⟨rfl, rfl, rfl, rfl⟩, hk.exchanged.once, hk.exchanged.gone⟩

theorem spent_of_returns {x : Except Failure Answer} (hx : Done s x)
    (hreturns : returns refreshToken (j, x) = true) : s.spent = some refreshToken := by
  cases x with
  | error e => cases hreturns
  | ok answer =>
    cases answer with
    | rotated old new session =>
      obtain rfl : old = refreshToken := of_decide_eq_true hreturns
      exact hx.1
    | _ => cases hreturns

theorem kept_answer (hk : Kept h w st) (hj : st j = some s) {x : Except Failure Answer}
    (hx : Done s x) :
    Kept (h ++ [(j, x)]) w (Function.update st j none) := by
  have hgone := kept_gone (j := j) hk
  have hmine {t : Uuid} (hreturns : returns t (j, x) = true) : view Stage.spent st j = some t :=
    (view_eq hj).trans (spent_of_returns hx hreturns)
  have hnone {t : Uuid} (hreturns : returns t (j, x) = true) : h.filter (returns t) = [] := by
    by_contra hne
    exact (hk.exchanged.gone t hne).2 j (hmine hreturns)
  refine ⟨hgone.lined, hgone.single, fun t => ?_, fun t ht => ?_⟩
  · rw [List.filter_append, List.filter_singleton]
    cases hreturns : returns t (j, x) with
    | false => simpa using hk.exchanged.once t
    | true => simp [hnone hreturns]
  · rw [List.filter_append, List.filter_singleton] at ht
    cases hreturns : returns t (j, x) with
    | false =>
      rw [hreturns] at ht
      exact hgone.exchanged.gone t (by simpa using ht)
    | true =>
      refine ⟨hk.single.deleted j t (hmine hreturns), fun k hview => ?_⟩
      obtain ⟨hne, hold⟩ := view_release rfl hview
      exact hne (hk.single.deleters k j t hold (hmine hreturns))

theorem kept_empty : Kept [] empty.world (active empty) := by
  refine ⟨lined_empty, ⟨fun t t' d d' ht => (by cases ht), fun k f hf => (by cases hf),
    fun a b f ha => (by cases ha), fun k t ht => (by cases ht), fun a b t ha => (by cases ha)⟩,
      fun t => ?_,
    fun t ht => absurd rfl ht⟩
  exact Nat.zero_le 1

theorem run_kept {es : List RaceEvent} {c : Race} (hfirm : Along system.step Firmly empty es)
    (hrun : run system.step empty es = some c) :
    Kept (answers system empty es) c.world (active c) := by
  refine run_answers (S := system) (p := []) (I := Kept) (Q := Done) keeps_program calls_program
    (fun h c j a hk hj _ => kept_start hk) (fun h c j o s i hk hj hi hallowed hC => ?_)
    (fun h w st j s x hk hj hx => kept_answer hk hj hx) (fun h c j hk _ => kept_gone hk)
    (fun h c d w hk _ hw => kept_outside hk hw) (fun j t ht => (by cases ht)) kept_empty hfirm hrun
  exact call_kept hk hj hallowed (hC i hi)

/-- Whatever the order of the commands, a token is exchanged once and a family has one live token,
where each rotation is the first to delete the token that it read. -/
theorem exchanged_once {es : List RaceEvent} {c : Race} (hfirm : Along system.step Firmly empty es)
    (hrun : run system.step empty es = some c) :
    (∀ refreshToken, ((answers system empty es).filter (returns refreshToken)).length ≤ 1) ∧
      ∀ t t' d d', c.world.live t = some d → c.world.live t' = some d' → d.familyId = d'.familyId →
        t = t' := by
  have hk := run_kept hfirm hrun
  refine ⟨hk.exchanged.once, fun t t' d d' hd hd' hf => ?_⟩
  have hunspent {x : Uuid} {e : SessionData} (he : c.world.live x = some e) : c.world.spent x =
      false := by
    obtain ⟨entry, hentry, -⟩ := live_stored he
    exact (hk.lined.sound.stored x entry hentry).1
  exact hk.single.heads t t' d d' (hk.lined.sound.live hd) (hk.lined.sound.live hd') hf
    (hunspent hd) (hunspent hd')

/-! ### Two rotations at once -/

def login : Login := ⟨"ana", "ana@example.org", "HOGAR"⟩

def answered (j calls : ℕ) : List RaceEvent := List.replicate calls (.advance j .done)

/-- `Firmly` as a test. -/
def firmly (c : Race) : RaceEvent → Bool
  | .advance j o =>
    match pending c j with
    | some (.del .rotation refreshToken) => !o.applied || !c.world.spent refreshToken
    | _ => true
  | _ => true

theorem firmly_of_test {c : Race} {e : RaceEvent} (h : firmly c e = true) : Firmly c e := by
  cases e with
  | advance j o =>
    intro i hi
    simp only [firmly, hi] at h
    cases i with
    | del caller t =>
      cases caller with
      | rotation =>
        intro happlied
        rw [happlied] at h
        simpa using h
      | _ => trivial
    | _ => trivial
  | _ => trivial

def loginThenRotate : List RaceEvent :=
  .start 0 (.create login) :: answered 0 6 ++ .start 1 (.rotate 0) :: answered 1 7

theorem exchanged_once_rotated : ∃ c, run system.step empty loginThenRotate = some c ∧
    (∀ refreshToken,
      ((answers system empty loginThenRotate).filter (returns refreshToken)).length ≤ 1) ∧
      ∀ t t' d d', c.world.live t = some d → c.world.live t' = some d' → d.familyId = d'.familyId →
        t = t' := by
  obtain ⟨c, hc⟩ := Option.isSome_iff_exists.mp
    (show (run system.step empty loginThenRotate).isSome = true by decide +kernel)
  have hfirm : Along system.step Firmly empty loginThenRotate :=
    along_mono (fun _ _ h => firmly_of_test h) (by decide +kernel)
  exact ⟨c, hc, exchanged_once hfirm hc⟩

def rotatedAtOnce : List RaceEvent :=
  .start 0 (.create login) :: answered 0 6 ++ .start 1 (.rotate 0) :: .start 2 (.rotate 0) ::
    answered 1 1 ++ answered 2 7 ++ answered 1 6

def families (c : Race) : List (Option Uuid) := (List.range 4).map fun t =>
  (c.world.live t).map SessionData.familyId

/-- One token is exchanged twice, and its family has two live tokens. -/
theorem exchanged_twice : ((answers system empty rotatedAtOnce).filter (returns 0)).length = 2 ∧
    ∃ c, run system.step empty rotatedAtOnce = some c ∧
      families c = [none, none, some 1, some 1] := by
  refine ⟨by decide +kernel, ?_⟩
  have hrun : (run system.step empty rotatedAtOnce).map families =
      some [none, none, some 1, some 1] := by
    decide +kernel
  exact Option.map_eq_some_iff.mp hrun

end Livora.SessionRotations
