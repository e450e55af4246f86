import Livora.PushBooks

/-! The attempts of a queued push. A job that waits has been pushed to nobody, and while one worker
runs it no other does, so that its attempts together push to a device once at most. -/

namespace Livora.PushAttempts

open EffectPrograms ProgramPools NamedPools CallTraces
open JobQueues AuthBooks PushServices PushRequests PushBooks

/-! ### How often a job is pushed -/

/-- The tokens that were handed over for a job, by all the workers that took it. -/
def sentFor (n : ℕ) (h : Past) : List String :=
  h.flatMap fun m => if m.call.1.1 = .work n then sentBy m.call.1 else []

/-- A job that waits has been pushed to nobody; one that is active has been pushed to by the worker
that took it last, and by no other. -/
structure Tried (h : Past) (w : World) (st : ℕ → Option (List Answered)) : Prop where
  took : ∀ j own n k, st j = some own → Took own n k → ∃ job, w.jobs[n]? = some job ∧
    k ≤ job.started
  alone : ∀ i j own own' n k, st i = some own → st j = some own' → Took own n k →
    Took own' n k → i = j
  single : ∀ j own n n' k k', st j = some own → Took own n k → Took own n' k' → n = n' ∧ k = k'
  running : ∀ j own n k, st j = some own → Took own n k → Unfinished own →
    ∃ job, w.jobs[n]? = some job ∧ job.phase = .active ∧ job.started = k ∧ sentFor n h = sent own
  waiting : ∀ n job, w.jobs[n]? = some job → job.phase = .waiting → sentFor n h = []
  absent : ∀ n, w.jobs[n]? = none → sentFor n h = []
  nodup : ∀ n, (sentFor n h).Nodup

section Jobs

variable {w w' : World} {h : Past} {st : ℕ → Option (List Answered)} {j n : ℕ} {own : List Answered}
  {m : Made World (Request × Op) fun i => Except Failure (Reply i.2)} {request : Request} {i : Op}

theorem sentFor_append : sentFor n (h ++ [m]) =
    sentFor n h ++ (if m.call.1.1 = .work n then sentBy m.call.1 else []) := by
  rw [sentFor, List.flatMap_append, List.flatMap_singleton, sentFor]

theorem sentFor_idle (hm : m.call.1.1 = .work n → sentBy m.call.1 = []) :
    sentFor n (h ++ [m]) = sentFor n h := by
  rw [sentFor_append]
  split
  · rw [hm ‹_›, List.append_nil]
  · exact List.append_nil _

theorem Tried.update (ht : Tried h w st) {t : Option (List Answered)}
    (hown : ∀ own', t = some own' → ∀ n k, Took own' n k → ∃ own, st j = some own ∧ Took own n k ∧
      (Unfinished own' → Unfinished own ∧ sent own' = sent own)) : Tried h w
        (Function.update st j t) := by
  have hbefore : ∀ a own' n k, Function.update st j t a = some own' → Took own' n k → ∃ own,
      st a = some own ∧ Took own n k ∧
        (Unfinished own' → Unfinished own ∧ sent own' = sent own) := by
    intro a own' n k ha htook
    rcases stage_update ha with ⟨rfl, hnew⟩ | ⟨-, hst⟩
    · exact hown own' hnew n k htook
    · exact ⟨own', hst, htook, fun hu => ⟨hu, rfl⟩⟩
  refine ⟨fun a own' n k ha htook => ?_, fun a b own' own'' n k ha hb htook htook' => ?_,
    fun a own' n n' k k' ha htook htook' => ?_, fun a own' n k ha htook hu => ?_, ht.waiting,
      ht.absent, ht.nodup⟩
  · obtain ⟨own, hst, htaken, -⟩ := hbefore a own' n k ha htook
    exact ht.took a own n k hst htaken
  · obtain ⟨own, hst, htaken, -⟩ := hbefore a own' n k ha htook
    obtain ⟨other, hst', htaken', -⟩ := hbefore b own'' n k hb htook'
    exact ht.alone a b own other n k hst hst' htaken htaken'
  · obtain ⟨own, hst, htaken, -⟩ := hbefore a own' n k ha htook
    obtain ⟨other, hst', htaken', -⟩ := hbefore a own' n' k' ha htook'
    cases hst.symm.trans hst'
    exact ht.single a own n n' k k' hst htaken htaken'
  · obtain ⟨own, hst, htaken, hsame⟩ := hbefore a own' n k ha htook
    obtain ⟨hunfinished, hsent⟩ := hsame hu
    rw [hsent]
    exact ht.running a own n k hst htaken hunfinished

theorem Tried.start (ht : Tried h w st) (j : ℕ) : Tried h w (Function.update st j (some [])) :=
  ht.update fun own' hown n k ⟨_, _, hmem, _⟩ => by
    cases hown
    cases hmem

theorem Tried.stop (ht : Tried h w st) (j : ℕ) : Tried h w (Function.update st j none) :=
  ht.update fun _ hown => by cases hown

theorem Tried.jobs (ht : Tried h w st) (hsame : ∀ n, sentFor n (h ++ [m]) = sentFor n h)
    (hjobs : ∀ (n : ℕ) job, w.jobs[n]? = some job → w'.jobs[n]? = some job)
    (hnew : ∀ (n : ℕ) job, w'.jobs[n]? = some job → w.jobs[n]? = some job ∨ w.jobs[n]? = none) :
    Tried (h ++ [m]) w' st where
  took j own n k hst htook := by
    obtain ⟨job, hjob, hk⟩ := ht.took j own n k hst htook
    exact ⟨job, hjobs n job hjob, hk⟩
  alone := ht.alone
  single := ht.single
  running j own n k hst htook hu := by
    obtain ⟨job, hjob, hrest⟩ := ht.running j own n k hst htook hu
    rw [hsame]
    exact ⟨job, hjobs n job hjob, hrest⟩
  waiting n job hjob hphase := by
    rw [hsame]
    rcases hnew n job hjob with hold | hnone
    · exact ht.waiting n job hold hphase
    · exact ht.absent n hnone
  absent n hnone := by
    rw [hsame]
    refine ht.absent n ?_
    cases hjob : w.jobs[n]? with
    | none => rfl
    | some job => cases (hjobs n job hjob).symm.trans hnone
  nodup n := by
    rw [hsame]
    exact ht.nodup n

theorem tried_idle (ht : Tried h w st) (hj : st j = some own) (hsent : sentBy m.call.1 = [])
    (htakes : ∀ n, m.call.1.2 ≠ .takeJob n)
    (hjobs : ∀ (n : ℕ) job, w.jobs[n]? = some job → w'.jobs[n]? = some job)
    (hnew : ∀ (n : ℕ) job, w'.jobs[n]? = some job → w.jobs[n]? = some job ∨ w.jobs[n]? = none) :
    Tried (h ++ [m]) w' (Function.update st j (some (own ++ [m.call]))) := by
  refine Tried.update (ht.jobs (fun n => sentFor_idle fun _ => hsent) hjobs hnew) fun own' hown =>
    ?_
  cases hown
  exact fun n k htook =>
    ⟨own, hj, htook.of_append (htakes n), fun hu => ⟨hu.of_append, sent_append_idle hsent⟩⟩

theorem jobs_modify (w : World) (f : Job PushJob → Job PushJob) (n k : ℕ) :
    (w.jobs.modify n f)[k]? = if n = k then w.jobs[k]?.map f else w.jobs[k]? := by
  rw [List.getElem?_modify]
  split <;> cases w.jobs[k]? <;> rfl

theorem waiting_eq_some {job : Job PushJob} :
    JobQueues.waiting w.jobs n = some job ↔ w.jobs[n]? = some job ∧ job.phase = .waiting := by
  rw [JobQueues.waiting, Option.filter_eq_some_iff, decide_eq_true_eq]

theorem jobs_take_none (hnone : JobQueues.waiting w.jobs n = none) (k : ℕ) :
    (w.jobs.modify n Job.take)[k]? = w.jobs[k]? := by
  rw [jobs_modify]
  split
  · subst k
    cases hjob : w.jobs[n]? with
    | none => rfl
    | some job =>
      have hphase : job.phase ≠ .waiting := fun hphase =>
        Option.some_ne_none job ((waiting_eq_some.mpr ⟨hjob, hphase⟩).symm.trans hnone)
      rw [Option.map_some, Job.take, if_neg hphase]
  · rfl

/-! #### A worker takes a job -/

section Taking

variable {job : Job PushJob} (hjob : w.jobs[n]? = some job) (hphase : job.phase = .waiting)
  (hm : m.call = said (.work n) (.takeJob n) (.ok (some job.take)))

theorem take_eq (hphase : job.phase = .waiting) :
    job.take = { job with started := job.started + 1, phase := .active } := if_pos hphase

include hjob in
theorem jobs_taken (k : ℕ) :
    (w.jobs.modify n Job.take)[k]? = if n = k then some job.take else w.jobs[k]? := by
  rw [jobs_modify]
  split
  · subst k
    rw [hjob, Option.map_some]
  · rfl

include hm in
theorem sentFor_taken (k : ℕ) : sentFor k (h ++ [m]) = sentFor k h := sentFor_idle fun _ => by
  rw [hm]; rfl

include hphase hm in
theorem took_taken {k started : ℕ} (htook : Took [m.call] k started) :
    k = n ∧ started = job.started + 1 := by
  obtain ⟨asked, taken, hmem, rfl⟩ := htook
  rw [hm] at hmem
  cases List.mem_singleton.mp hmem
  exact ⟨rfl, by rw [take_eq hphase]⟩

include hjob in
/-- Whoever took the job before took it under an older token. -/
theorem Tried.older (ht : Tried h w st) {k started : ℕ} (hk : st k = some own)
    (htook : Took own n started) :
    started ≤ job.started := by
  obtain ⟨old, hfound, hle⟩ := ht.took k own n started hk htook
  cases hjob.symm.trans hfound
  exact hle

include hjob hphase hm

theorem took_take (ht : Tried h w st) {k a started : ℕ}
    (hk : Function.update st j (some [m.call]) k = some own) (htook : Took own a started) :
    ∃ job, (w.jobs.modify n Job.take)[a]? = some job ∧ started ≤ job.started := by
  rw [jobs_taken hjob]
  rcases stage_update hk with ⟨rfl, hnew⟩ | ⟨-, hst⟩
  · cases hnew
    obtain ⟨rfl, rfl⟩ := took_taken hphase hm htook
    exact ⟨job.take, if_pos rfl, by rw [take_eq hphase]⟩
  · obtain ⟨old, hfound, hle⟩ := ht.took k own a started hst htook
    split
    · subst a
      cases hjob.symm.trans hfound
      exact ⟨job.take, rfl, by rw [take_eq hphase]; exact Nat.le_succ_of_le hle⟩
    · exact ⟨old, hfound, hle⟩

theorem alone_take (ht : Tried h w st) {a b k started : ℕ} {own' : List Answered}
    (ha : Function.update st j (some [m.call]) a = some own)
    (hb : Function.update st j (some [m.call]) b = some own') (htook : Took own k started)
    (htook' : Took own' k started) : a = b := by
  rcases stage_update ha with ⟨rfl, hnew⟩ | ⟨-, hst⟩
  · rcases stage_update hb with ⟨rfl, -⟩ | ⟨-, hst'⟩
    · rfl
    · cases hnew
      obtain ⟨rfl, rfl⟩ := took_taken hphase hm htook
      exact absurd (ht.older hjob hst' htook') (Nat.not_succ_le_self _)
  · rcases stage_update hb with ⟨rfl, hnew⟩ | ⟨-, hst'⟩
    · cases hnew
      obtain ⟨rfl, rfl⟩ := took_taken hphase hm htook'
      exact absurd (ht.older hjob hst htook) (Nat.not_succ_le_self _)
    · exact ht.alone a b own own' k started hst hst' htook htook'

theorem running_take (ht : Tried h w st) {k a started : ℕ}
    (hk : Function.update st j (some [m.call]) k = some own) (htook : Took own a started)
    (hu : Unfinished own) : ∃ job, (w.jobs.modify n Job.take)[a]? = some job ∧ job.phase = .active ∧
      job.started = started ∧ sentFor a (h ++ [m]) = sent own := by
  rw [jobs_taken hjob, sentFor_taken hm]
  rcases stage_update hk with ⟨rfl, hnew⟩ | ⟨-, hst⟩
  · cases hnew
    obtain ⟨rfl, rfl⟩ := took_taken hphase hm htook
    refine ⟨job.take, if_pos rfl, by rw [take_eq hphase], by rw [take_eq hphase], ?_⟩
    rw [ht.waiting _ job hjob hphase, hm]
    rfl
  · obtain ⟨old, hfound, hactive, hrest⟩ := ht.running k own a started hst htook hu
    split
    · subst a
      cases hjob.symm.trans hfound
      cases hphase.symm.trans hactive
    · exact ⟨old, hfound, hactive, hrest⟩

theorem tried_taken (ht : Tried h w st) :
    Tried (h ++ [m]) { w with jobs := w.jobs.modify n Job.take }
    (Function.update st j (some [m.call])) where
  took _ _ _ _ hk htook := took_take hjob hphase hm ht hk htook
  alone _ _ _ _ _ _ ha hb htook htook' := alone_take hjob hphase hm ht ha hb htook htook'
  single k own a b started started' hk htook htook' := by
    rcases stage_update hk with ⟨rfl, hnew⟩ | ⟨-, hst⟩
    · cases hnew
      obtain ⟨ha, hstarted⟩ := took_taken hphase hm htook
      obtain ⟨hb, hstarted'⟩ := took_taken hphase hm htook'
      exact ⟨ha.trans hb.symm, hstarted.trans hstarted'.symm⟩
    · exact ht.single k own a b started started' hst htook htook'
  running _ _ _ _ hk htook hu := running_take hjob hphase hm ht hk htook hu
  waiting k other hk hwaits := by
    rw [jobs_taken hjob] at hk
    rw [sentFor_taken hm]
    split at hk
    · cases hk
      rw [take_eq hphase] at hwaits
      cases hwaits
    · exact ht.waiting k other hk hwaits
  absent k hk := by
    rw [jobs_taken hjob] at hk
    rw [sentFor_taken hm]
    split at hk
    · cases hk
    · exact ht.absent k hk
  nodup k := by
    rw [sentFor_taken hm]
    exact ht.nodup k

end Taking

theorem tried_take (ht : Tried h w st) (hm : m.call =
      said (.work n) (.takeJob n) (.ok ((JobQueues.waiting w.jobs n).map Job.take))) :
    Tried (h ++ [m]) { w with jobs := w.jobs.modify n Job.take }
    (Function.update st j (some [m.call])) := by
  cases hwaiting : JobQueues.waiting w.jobs n with
  | none =>
    rw [hwaiting] at hm
    have hsame : ∀ k, sentFor k (h ++ [m]) = sentFor k h := fun k => sentFor_idle fun _ => by
      rw [hm]; rfl
    refine Tried.update (ht.jobs hsame (fun k job hk => (jobs_take_none hwaiting k).trans hk)
      fun k job hk => .inl ((jobs_take_none hwaiting k).symm.trans hk)) fun own' hown => ?_
    cases hown
    rintro k started ⟨asked, job, hmem, _⟩
    rw [hm] at hmem
    cases List.mem_singleton.mp hmem
  | some job =>
    rw [hwaiting] at hm
    obtain ⟨hjob, hphase⟩ := waiting_eq_some.mp hwaiting
    exact tried_taken hjob hphase hm ht

theorem found_nodup {userId : String} {tokens : List String}
    (hfound : Found own request userId tokens) :
    tokens.Nodup := by
  obtain ⟨devices, user, -, -, rfl⟩ := hfound
  exact tokenArray_nodup _ _

theorem tried_send (ht : Tried h w st) (hj : st j = some own) {message : Multicast}
    (hallowed : Allowed own (request, .sendEachForMulticast message))
    (hm : m.call.1 = (request, .sendEachForMulticast message)) :
    Tried (h ++ [m]) w (Function.update st j (some (own ++ [m.call]))) := by
  obtain ⟨hunfinished, push, tokens, hmeant, -, hfound, -, -, hprefix⟩ := hallowed
  have htook : ∀ {n k}, Took (own ++ [m.call]) n k → Took own n k :=
    fun htook => htook.of_append (by rw [hm]; exact fun h => by cases h)
  have hsent : sent (own ++ [m.call]) = sent own ++ message.tokens := by
    rw [sent_append]
    congr 1
    rw [sent, List.flatMap_singleton, hm]
    rfl
  rcases hmeant with ⟨hrequest, huntaken⟩ | ⟨n₀, job₀, hrequest, htaken, -⟩
  · have hsame : ∀ n, sentFor n (h ++ [m]) = sentFor n h := by
      intro n
      refine sentFor_idle fun hwork => ?_
      rw [hm] at hwork
      cases hrequest.symm.trans hwork
    refine Tried.update (ht.jobs hsame (fun _ _ => id) fun _ _ => .inl) fun own' hown => ?_
    cases hown
    exact fun n k h' => absurd (htook h') (huntaken n k)
  · obtain ⟨job, hjob, hactive, hstarted, hsame⟩ :=
      ht.running j own n₀ job₀.started hj ⟨request, job₀, htaken, rfl⟩ hunfinished
    have hown : ∀ {n k}, Took own n k → n = n₀ ∧ k = job₀.started := fun h' =>
      ht.single j own _ _ _ _ hj h' ⟨request, job₀, htaken, rfl⟩
    have hmore : sentFor n₀ (h ++ [m]) = sent own ++ message.tokens := by
      rw [sentFor_append, hsame, hm]
      exact congrArg (_ ++ ·) (if_pos hrequest)
    have hothers : ∀ {n}, n ≠ n₀ → sentFor n (h ++ [m]) = sentFor n h := by
      intro n hn
      refine sentFor_idle fun hwork => ?_
      rw [hm] at hwork
      exact absurd (Request.work.inj (hrequest.symm.trans hwork)).symm hn
    refine ⟨fun a own' n k ha h' => ?_, fun a b own' own'' n k ha hb h' h'' => ?_,
      fun a own' n n' k k' ha h' h'' => ?_, fun a own' n k ha h' hu =>
        ?_, fun n other hn hwaits => ?_,
      fun n hn => ?_, fun n => ?_⟩
    · rcases stage_update ha with ⟨rfl, hnew⟩ | ⟨-, hst⟩
      · cases hnew
        exact ht.took a own n k hj (htook h')
      · exact ht.took a own' n k hst h'
    · rcases stage_update ha with ⟨rfl, hnew⟩ | ⟨-, hst⟩
      · cases hnew
        rcases stage_update hb with ⟨rfl, -⟩ | ⟨-, hst'⟩
        · rfl
        · exact ht.alone a b own own'' n k hj hst' (htook h') h''
      · rcases stage_update hb with ⟨rfl, hnew⟩ | ⟨-, hst'⟩
        · cases hnew
          exact ht.alone a b own' own n k hst hj h' (htook h'')
        · exact ht.alone a b own' own'' n k hst hst' h' h''
    · rcases stage_update ha with ⟨rfl, hnew⟩ | ⟨-, hst⟩
      · cases hnew
        exact ht.single a own n n' k k' hj (htook h') (htook h'')
      · exact ht.single a own' n n' k k' hst h' h''
    · rcases stage_update ha with ⟨rfl, hnew⟩ | ⟨haj, hst⟩
      · cases hnew
        obtain ⟨rfl, rfl⟩ := hown (htook h')
        exact ⟨job, hjob, hactive, hstarted, hmore.trans hsent.symm⟩
      · obtain ⟨other, hother, hactive', hstarted', hsame'⟩ := ht.running a own' n k hst h' hu
        have hn : n ≠ n₀ := by
          rintro rfl
          cases hjob.symm.trans hother
          exact haj (ht.alone a j own' own n k hst hj h' ⟨request, job₀, htaken,
            hstarted.symm.trans hstarted'⟩)
        exact ⟨other, hother, hactive', hstarted', (hothers hn).trans hsame'⟩
    · have hne : n ≠ n₀ := by
        rintro rfl
        cases hjob.symm.trans hn
        cases hactive.symm.trans hwaits
      exact (hothers hne).trans (ht.waiting n other hn hwaits)
    · have hne : n ≠ n₀ := by
        rintro rfl
        cases hjob.symm.trans hn
      exact (hothers hne).trans (ht.absent n hn)
    · by_cases hn : n = n₀
      · subst hn
        rw [hmore]
        exact (found_nodup hfound).sublist hprefix.sublist
      · rw [hothers hn]
        exact ht.nodup n

theorem tried_finish (ht : Tried h w st) (hj : st j = some own) {token : ℕ} {ok : Bool}
    (hallowed : Allowed own (request, .finishJob n token ok))
    (hm : m.call.1 = (request, .finishJob n token ok)) :
    Tried (h ++ [m]) { w with jobs := w.jobs.modify n fun job => job.finish token ok }
      (Function.update st j (some (own ++ [m.call]))) := by
  obtain ⟨-, htaken, hunfinished, hfailed⟩ := hallowed
  obtain ⟨job, hjob, hactive, hstarted, hsame⟩ := ht.running j own n token hj htaken hunfinished
  have htook : ∀ {n k}, Took (own ++ [m.call]) n k → Took own n k :=
    fun h' => h'.of_append (by rw [hm]; exact fun h => by cases h)
  have hfinished : ¬ Unfinished (own ++ [m.call]) := by
    obtain ⟨before, ⟨i, r⟩⟩ := m
    cases hm
    exact fun hu => hu request n token ok r (List.mem_append_right _ List.mem_cons_self)
  have hidle : ∀ k, sentFor k (h ++ [m]) = sentFor k h := fun k => sentFor_idle fun _ => by
    rw [hm]; rfl
  have hfinish : job.finish token ok = { job with
      attemptsMade := job.attemptsMade + 1
      phase := if ok then .completed else if job.attemptsMade + 1 <
        job.attempts then .waiting else .failed } :=
    if_pos ⟨hactive, hstarted⟩
  have hlookup : ∀ k,
    ({ w with jobs := w.jobs.modify n fun job => job.finish token ok } : World).jobs[k]? =
      if n = k then some (job.finish token ok) else w.jobs[k]? := by
    intro k
    rw [jobs_modify]
    split
    · subst k
      rw [hjob, Option.map_some]
    · rfl
  have ht' : Tried h w (Function.update st j (some (own ++ [m.call]))) := by
    refine ht.update fun own' hown => ?_
    cases hown
    exact fun k started h' => ⟨own, hj, htook h', fun hu => absurd hu hfinished⟩
  refine ⟨fun a own' k started ha h' => ?_, ht'.alone, ht'.single,
    fun a own' k started ha h' hu => ?_,
    fun k other hk hwaits => ?_, fun k hk => ?_, fun k => by rw [hidle]; exact ht.nodup k⟩
  · obtain ⟨other, hother, hle⟩ := ht'.took a own' k started ha h'
    rw [hlookup]
    split
    · subst k
      cases hjob.symm.trans hother
      exact ⟨_, rfl, by rw [hfinish]; exact hle⟩
    · exact ⟨other, hother, hle⟩
  · obtain ⟨other, hother, hactive', hstarted', hsent⟩ := ht'.running a own' k started ha h' hu
    rcases stage_update ha with ⟨-, hnew⟩ | ⟨haj, hst⟩
    · cases hnew
      exact absurd hu hfinished
    · rw [hlookup, hidle]
      split
      · subst k
        cases hjob.symm.trans hother
        cases hstarted.symm.trans hstarted'
        exact absurd (ht.alone a j own' own n _ hst hj h' htaken) haj
      · exact ⟨other, hother, hactive', hstarted', hsent⟩
  · rw [hlookup] at hk
    rw [hidle]
    split at hk
    · subst k
      cases hk
      rw [hfinish] at hwaits
      cases ok with
      | true => cases hwaits
      | false => exact hsame.trans (hfailed rfl)
    · exact ht.waiting k other hk hwaits
  · rw [hlookup] at hk
    rw [hidle]
    split at hk
    · cases hk
    · exact ht.absent k hk

theorem tried_call (ht : Tried h w st) (hj : st j = some own) (o : Outcome)
    (hallowed : Allowed own (request, i)) :
    Tried (h ++ [⟨w, (request, i), w.reply i o⟩]) (w.after i o.delivery)
      (Function.update st j (some (own ++ [⟨(request, i), w.reply i o⟩]))) := by
  have hif : ∀ (b : Bool), sentBy (request, i) = [] → (∀ n, i ≠ .takeJob n) →
      (w.effect i).jobs = w.jobs →
      Tried (h ++ [⟨w, (request, i), w.reply i o⟩]) (if b then w.effect i else w)
        (Function.update st j (some (own ++ [⟨(request, i), w.reply i o⟩]))) := by
    intro b hsent htakes hjobs
    have hsame : (if b then w.effect i else w).jobs = w.jobs := by
      cases b with
      | true => exact hjobs
      | false => rfl
    exact tried_idle ht hj hsent htakes (fun n job hn => by rw [hsame]; exact hn)
      fun n job hn => .inl (by rw [hsame] at hn; exact hn)
  cases i with
  | sendEachForMulticast message =>
    have hafter : w.after (.sendEachForMulticast message) o.delivery = w := ite_self w
    rw [hafter]
    exact tried_send ht hj hallowed rfl
  | takeJob n =>
    obtain ⟨rfl, rfl⟩ := hallowed
    exact tried_take ht rfl
  | finishJob n token ok => exact tried_finish ht hj hallowed rfl
  | addJob job =>
    have hjobs : ∀ b : Bool, (if b then w.effect (.addJob job) else w).jobs = w.jobs ∨
        (if b then w.effect (.addJob job) else w).jobs = w.jobs ++ [.new job attempts] := by
      intro b
      cases b with
      | true => exact .inr rfl
      | false => exact .inl rfl
    refine tried_idle ht hj rfl (fun _ h => by cases h) (fun n old hn => ?_) fun n new hn => ?_
    · rcases hjobs o.delivery.applied with he | he
      · exact (congrArg (·[n]?) he).trans hn
      · refine (congrArg (·[n]?) he).trans ((List.getElem?_append_left ?_).trans hn)
        exact (List.getElem?_eq_some_iff.mp hn).1
    · rcases hjobs o.delivery.applied with he | he
      · exact .inl ((congrArg (·[n]?) he).symm.trans hn)
      · rcases Nat.lt_or_ge n w.jobs.length with hlt | hge
        · exact .inl
            ((List.getElem?_append_left hlt).symm.trans ((congrArg (·[n]?) he).symm.trans hn))
        · exact .inr (List.getElem?_eq_none hge)
  | _ => exact hif _ rfl (fun _ h => by cases h) rfl

theorem tried_outside (ht : Tried h w st) {d : Outside} (hd : ∀ n, d ≠ .stall n)
    (hw : outside w d = some w') :
    Tried h w' st := by
  cases d with
  | stall n => exact absurd rfl (hd n)
  | amend row =>
    simp only [outside] at hw
    split at hw
    · cases hw
      exact ⟨ht.took, ht.alone, ht.single, ht.running, ht.waiting, ht.absent, ht.nodup⟩
    · cases hw

end Jobs

end Livora.PushAttempts
