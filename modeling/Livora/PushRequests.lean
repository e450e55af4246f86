import Livora.CallTraces
import Livora.NamedPools
import Livora.PushServices

/-! What a request has to have called before it pushes a lot, deletes tokens or reports a job. The
services keep to it, and each sends its tokens in their order, lot by lot. -/

namespace Livora.PushRequests

open EffectPrograms EffectPrograms.Action NamedPools CallTraces JobQueues AuthBooks PushServices

abbrev Answered := Call (Request × Op) fun i => Except Failure (Reply i.2)

def sentBy : Request × Op → List String
  | (_, .sendEachForMulticast message) => message.tokens
  | _ => []

def sent (own : List Answered) : List String := own.flatMap fun c => sentBy c.1

def Took (own : List Answered) (n token : ℕ) : Prop :=
  ∃ request job, said request (.takeJob n) (.ok (some job)) ∈ own ∧ job.started = token

/-- What is pushed was asked for, or is the job that was taken. -/
def Meant (own : List Answered) (request : Request) (push : Push) : Prop :=
  request = .send push ∧ (∀ n token, ¬ Took own n token) ∨
    ∃ n job, request = .work n ∧ said request (.takeJob n) (.ok (some job)) ∈ own ∧
      job.data = .user push

def Found (own : List Answered) (request : Request) (userId : String) (tokens : List String) :
    Prop :=
  ∃ devices user, said request (.findDeviceTokens userId) (.ok devices) ∈ own ∧
    said request (.findFcmToken userId) (.ok user) ∈ own ∧
    tokens = tokenArray (user.join.filter (· ≠ "")) devices

/-- The provider has answered that the token is no longer one of a device. -/
def Dead (own : List Answered) (request : Request) (token : String) : Prop :=
  ∃ message response, said request (.sendEachForMulticast message) (.ok response) ∈ own ∧
    token ∈ tokensToDelete message.tokens response

def Unfinished (own : List Answered) : Prop :=
  ∀ request n token ok r, said request (.finishJob n token ok) r ∉ own

def Allowed (own : List Answered) : Request × Op → Prop
  | (request, .sendEachForMulticast message) =>
    Unfinished own ∧ ∃ push tokens, Meant own request push ∧
      message.content = contentOf push.title push.body push.data ∧
        Found own request push.userId tokens ∧
      message.tokens ≠ [] ∧ message.tokens.length ≤ chunkSize ∧
        sent own ++ message.tokens <+: tokens
  | (request, .deleteDeviceTokens tokens) => ∀ token ∈ tokens, Dead own request token
  | (request, .clearFcmToken userId) => (∃ token, request = .unregister userId token) ∨
      ∃ token, said request (.findFcmToken userId) (.ok (some (some token))) ∈ own ∧
        Dead own request token
  | (request, .addJob (.user push)) => request = .send push
  | (request, .takeJob n) => own = [] ∧ request = .work n
  | (request, .finishJob n token ok) => request = .work n ∧ Took own n token ∧ Unfinished own ∧
      (ok = false → sent own = [])
  | (request, .upsertDeviceToken userId token) =>
      request = .register userId token ∨ request = .updateFcmToken userId token
  | (request, .setFcmToken userId token) =>
      request = .register userId token ∨ request = .updateFcmToken userId token
  | (request, .deleteUserToken userId token) => request = .unregister userId (some token)
  | (request, .deleteUserTokens userId) => ∃ token, request = .unregister userId token ∧
      token.filter (· ≠ "") = none
  | _ => True

/-! ### What a program calls in between -/

def Posting : Op → Prop
  | .sendEachForMulticast _ | .deleteDeviceTokens _ | .clearFcmToken _ => True
  | _ => False

/-- The calls that neither push nor look for tokens, nor take a job or report one. -/
def Aside : Op → Prop
  | .sendEachForMulticast _ | .findDeviceTokens _ | .findFcmToken _ | .takeJob _ | .finishJob _ _ _ => False
  | _ => True

def Extends (own t : List Answered) (tokens : List String) : Prop :=
  ∃ tail, t = own ++ tail ∧ sent tail = tokens ∧ ∀ c ∈ tail, Posting c.1.2

section Extending

variable {own t u : List Answered} {c : Answered} {request : Request} {tokens tokens' : List String}
  {userId : String}

theorem sent_append : sent (own ++ t) = sent own ++ sent t := List.flatMap_append

theorem Extends.refl (own : List Answered) : Extends own own [] :=
  ⟨[], (List.append_nil own).symm, rfl, fun _ h => by cases h⟩

theorem Extends.trans (h : Extends own t tokens) (h' : Extends t u tokens') :
    Extends own u (tokens ++ tokens') := by
  obtain ⟨tail, rfl, rfl, htail⟩ := h
  obtain ⟨tail', rfl, rfl, htail'⟩ := h'
  exact ⟨tail ++ tail', List.append_assoc .., sent_append, fun c hc =>
    (List.mem_append.mp hc).elim (htail c) (htail' c)⟩

theorem Extends.call (h : Extends own t tokens) (hc : Posting c.1.2) (hsent : sentBy c.1 = []) :
    Extends own (t ++ [c]) tokens := by
  have hlast : Extends t (t ++ [c]) [] := by
    refine ⟨[c], rfl, ?_, fun c' hc' => ?_⟩
    · rw [sent, List.flatMap_singleton, hsent]
    · cases List.mem_singleton.mp hc'
      exact hc
  rw [← List.append_nil tokens]
  exact h.trans hlast

theorem Extends.sent (h : Extends own t tokens) : sent t = sent own ++ tokens := by
  obtain ⟨tail, rfl, rfl, -⟩ := h
  exact sent_append

theorem Extends.subset (h : Extends own t tokens) : own ⊆ t := by
  obtain ⟨tail, rfl, -⟩ := h
  exact List.subset_append_left _ _

theorem Extends.mem_of_mem (h : Extends own t tokens) (hc : c ∈ t) (hposting : ¬ Posting c.1.2) :
    c ∈ own := by
  obtain ⟨tail, rfl, -, htail⟩ := h
  exact (List.mem_append.mp hc).resolve_right fun hmem => hposting (htail c hmem)

theorem Extends.unfinished (h : Extends own t tokens) (hown : Unfinished own) : Unfinished t :=
  fun request n token ok r hmem => hown request n token ok r (h.mem_of_mem hmem id)

theorem Extends.found (h : Extends own t tokens) :
    Found t request userId tokens' ↔ Found own request userId tokens' := by
  refine exists_congr fun devices => exists_congr fun user => ?_
  refine and_congr ⟨fun hmem => h.mem_of_mem hmem id, fun hmem => h.subset hmem⟩
    (and_congr ?_ Iff.rfl)
  exact ⟨fun hmem => h.mem_of_mem hmem id, fun hmem => h.subset hmem⟩

end Extending

/-! ### The services keep to it -/

def Complete (svc : Services) (own : List Answered) : Prop :=
  ∀ request userId tokens, Found own request userId tokens → svc.firebaseApp = true →
    sent own = tokens

structure Blank (own : List Answered) : Prop where
  sent : sent own = []
  unfinished : Unfinished own
  devices : ∀ request userId r, said request (.findDeviceTokens userId) r ∉ own
  account : ∀ request userId r, said request (.findFcmToken userId) r ∉ own

section Programs

variable {svc : Services} {own : List Answered} {request : Request} {push : Push} {n : ℕ}
  {fcmToken : Option String}

abbrev protocol (request : Request) : Protocol (List Answered) Op fun i =>
    Except Failure (Reply i) :=
  under (remembering Allowed) request

theorem addToken_nodup {set : List String} (token : String) (h : set.Nodup) :
    (addToken set token).Nodup := by
  unfold addToken
  split
  · exact h
  · rename_i hnew
    exact List.nodup_append.mpr ⟨h, List.nodup_singleton _, fun a ha b hb he =>
      hnew (.inr (List.mem_singleton.mp hb ▸ he ▸ ha))⟩

theorem foldl_addToken_nodup {set : List String} (tokens : List String) (h : set.Nodup) :
    (tokens.foldl addToken set).Nodup := by
  induction tokens generalizing set with
  | nil => exact h
  | cons token tokens ih => exact ih (addToken_nodup token h)

theorem tokenArray_nodup (fcmToken : Option String) (devices : List String) :
    (tokenArray fcmToken devices).Nodup :=
  foldl_addToken_nodup _ List.nodup_nil

theorem mem_foldl_addToken {set tokens : List String} {token : String}
    (h : token ∈ tokens.foldl addToken set) :
    token ∈ set ∨ token ∈ tokens := by
  induction tokens generalizing set with
  | nil => exact .inl h
  | cons first tokens ih =>
    rcases ih h with hset | hrest
    · unfold addToken at hset
      split at hset
      · exact .inl hset
      · refine (List.mem_append.mp hset).imp_right fun hlast => ?_
        cases List.mem_singleton.mp hlast
        exact List.mem_cons_self
    · exact .inr (List.mem_cons_of_mem _ hrest)

theorem mem_tokenArray {devices : List String} {token : String}
    (h : token ∈ tokenArray fcmToken devices) :
    fcmToken = some token ∨ token ∈ devices := by
  rcases mem_foldl_addToken h with hnone | hmem
  · cases hnone
  · exact (List.mem_append.mp hmem).imp_left Option.mem_toList.mp

theorem obeys_quietly {a : Work Unit} {Q : List Answered → Prop}
    (h : Obeys (protocol request) (fun t _ => Q t) own a) :
    Obeys (protocol request) (fun t x => x = .ok () ∧ Q t) own (quietly a) :=
  obeys_recover.mpr (h.mono (fun _ _ hQ => ⟨rfl, hQ⟩) fun _ _ hQ => ⟨rfl, hQ⟩)

theorem Dead.mono {t : List Answered} (hown : own ⊆ t) {token : String}
    (h : Dead own request token) :
    Dead t request token :=
  h.imp fun _ hm => hm.imp fun _ hr => ⟨hown hr.1, hr.2⟩

theorem obeys_cleanUp {tokens : List String} (hdead : ∀ token ∈ tokens, Dead own request token)
    (hfcm : ∀ token, fcmToken = some token →
      said request (.findFcmToken push.userId) (.ok (some (some token))) ∈ own) :
    Obeys (protocol request)
    (fun t _ => Extends own t []) own (cleanUp push.userId fcmToken tokens) := by
  unfold cleanUp
  split
  · exact Extends.refl own
  · refine obeys_bind.mpr
      ((obeys_quietly (obeys_perform.mpr ⟨hdead, fun _ => ?_, fun _ => ?_⟩)).mono
      (Q := fun t x => x = .ok () ∧ Extends own t []) (fun t x hx => ?_) fun t e hx => by
        cases hx.1)
    · exact (Extends.refl own).call trivial rfl
    · exact (Extends.refl own).call trivial rfl
    · cases fcmToken with
      | none => exact hx.2
      | some token =>
        change Obeys _ _ t (if token ∈ tokens then _ else _)
        split
        · rename_i hmem
          refine (obeys_quietly (obeys_perform.mpr ⟨Or.inr ⟨token, ?_, ?_⟩, fun _ => ?_, fun _ =>
            ?_⟩)).mono
            (Q := fun t x => x = .ok () ∧ Extends own t []) (fun t x hx => hx.2) fun t e hx => hx.2
          · exact hx.2.call trivial rfl
          · exact hx.2.call trivial rfl
          · exact hx.2.subset (hfcm token rfl)
          · exact (hdead token hmem).mono hx.2.subset
        · exact hx.2

structure Ready (own : List Answered) (request : Request) (push : Push) (fcmToken : Option String)
    (tokens : List String) : Prop where
  unfinished : Unfinished own
  meant : Meant own request push
  found : Found own request push.userId tokens
  account : ∀ token, fcmToken = some token →
    said request (.findFcmToken push.userId) (.ok (some (some token))) ∈ own

theorem Took.of_append {c : Answered} {n k : ℕ} (ht : Took (own ++ [c]) n k)
    (hc : c.1.2 ≠ .takeJob n) :
    Took own n k := by
  obtain ⟨asked, job, hmem, hstarted⟩ := ht
  refine ⟨asked, job, (List.mem_append.mp hmem).resolve_right fun hlast => ?_, hstarted⟩
  cases List.mem_singleton.mp hlast
  exact hc rfl

theorem Meant.append {c : Answered} (h : Meant own request push) (hc : ∀ n, c.1.2 ≠ .takeJob n) :
    Meant (own ++ [c]) request push := by
  rcases h with ⟨hrequest, huntaken⟩ | ⟨n, job, hrequest, htook, hdata⟩
  · exact .inl ⟨hrequest, fun n token htook => huntaken n token (htook.of_append (hc n))⟩
  · exact .inr ⟨n, job, hrequest, List.mem_append_left _ htook, hdata⟩

theorem Meant.extends {tokens : List String} {t : List Answered} (h : Meant own request push)
    (ht : Extends own t tokens) : Meant t request push := by
  rcases h with ⟨hrequest, huntaken⟩ | ⟨n, job, hrequest, htook, hdata⟩
  · refine .inl ⟨hrequest, fun n token ⟨asked, job, hmem, hstarted⟩ => ?_⟩
    exact huntaken n token ⟨asked, job, ht.mem_of_mem hmem id, hstarted⟩
  · exact .inr ⟨n, job, hrequest, ht.subset htook, hdata⟩

theorem Ready.extends {tokens chunk : List String} {t : List Answered}
    (h : Ready own request push fcmToken tokens)
    (ht : Extends own t chunk) : Ready t request push fcmToken tokens where
  unfinished := ht.unfinished h.unfinished
  meant := h.meant.extends ht
  found := ht.found.mpr h.found
  account token he := ht.subset (h.account token he)

theorem obeys_sendChunk {tokens chunk : List String} (h : Ready own request push fcmToken tokens)
    (hne : chunk ≠ []) (hlength : chunk.length ≤ chunkSize) (hpre : sent own ++ chunk <+: tokens) :
    Obeys (protocol request)
    (fun t x => x = .ok () ∧ Extends own t chunk) own (sendChunk push fcmToken chunk) := by
  have hsent : ∀ r, Extends own (own ++ [said request
      (.sendEachForMulticast ⟨chunk, contentOf push.title push.body push.data⟩) r]) chunk :=
    fun r => ⟨_, rfl, List.append_nil chunk, fun c hc => by cases List.mem_singleton.mp hc; trivial⟩
  refine obeys_quietly (obeys_call.mpr ⟨?_, fun response => ?_, fun e => hsent _⟩)
  · exact ⟨h.unfinished, push, tokens, h.meant, rfl, h.found, hne, hlength, hpre⟩
  · split
    · refine (obeys_cleanUp (fun token hmem => ?_) (h.extends (hsent (.ok response))).account).mono
        (fun t _ ht => ?_) fun t _ ht => ?_
      · exact ⟨_, response, List.mem_append_right _ List.mem_cons_self, hmem⟩
      · rw [← List.append_nil chunk]
        exact (hsent _).trans ht
      · rw [← List.append_nil chunk]
        exact (hsent _).trans ht
    · exact hsent _

theorem obeys_sendChunks {tokens rest : List String} (h : Ready own request push fcmToken tokens)
    (hsent : sent own ++ rest = tokens) {n : ℕ}
    (hn : (rest.length + (chunkSize - 1)) / chunkSize = n) :
    Obeys (protocol request)
    (fun t x => x = .ok () ∧ Extends own t rest) own (sendChunks push fcmToken n rest) := by
  induction n generalizing own rest with
  | zero =>
    have hzero : (rest.length + 499) / 500 = 0 := hn
    obtain rfl : rest = [] := List.eq_nil_of_length_eq_zero (by omega)
    exact ⟨rfl, Extends.refl own⟩
  | succ n ih =>
    have hrounds : (rest.length + 499) / 500 = n + 1 := hn
    have hlength : (rest.take chunkSize).length = min 500 rest.length := List.length_take
    have hchunk : rest.take chunkSize ++ rest.drop chunkSize = rest := List.take_append_drop ..
    refine obeys_bind.mpr ((obeys_sendChunk h ?_ ?_ ?_).mono (fun t x hx => ?_) fun t e hx => by
      cases hx.1)
    · exact List.ne_nil_of_length_pos (by omega)
    · exact hlength.trans_le (min_le_left _ _)
    · exact ⟨rest.drop chunkSize, by rw [List.append_assoc, hchunk, hsent]⟩
    · refine (ih (h.extends hx.2) ?_ ?_).mono (fun u y hy => ⟨hy.1, ?_⟩) fun u e hy => by cases hy.1
      · rw [hx.2.sent, List.append_assoc, hchunk, hsent]
      · rw [List.length_drop]
        change (rest.length - 500 + 499) / 500 = n
        omega
      · rw [← hchunk]
        exact hx.2.trans hy.2

/-- How a program ends: all that was found has been sent, and nothing by what has thrown. -/
structure Closed (svc : Services) (t : List Answered) (x : Except Failure Unit) : Prop where
  unfinished : Unfinished t
  failed : (∃ e, x = .error e) → sent t = []
  complete : Complete svc t

theorem Blank.complete (h : Blank own) : Complete svc own :=
  fun request userId _ ⟨_, _, hdevices, _⟩ => absurd hdevices (h.devices request userId _)

theorem Blank.closed (h : Blank own) (x : Except Failure Unit) : Closed svc own x :=
  ⟨h.unfinished, fun _ => h.sent, h.complete⟩

theorem sent_append_idle {c : Answered} (hc : sentBy c.1 = []) : sent (own ++ [c]) = sent own := by
  rw [sent_append, sent, sent, List.flatMap_singleton, hc, List.append_nil]

theorem Unfinished.append {c : Answered} (h : Unfinished own)
    (hc : ∀ n token ok, c.1.2 ≠ .finishJob n token ok) : Unfinished (own ++ [c]) := by
  intro request n token ok r hmem
  rcases List.mem_append.mp hmem with hmem | hlast
  · exact h request n token ok r hmem
  · cases List.mem_singleton.mp hlast
    exact hc n token ok rfl

theorem Unfinished.of_append {c : Answered} (hu : Unfinished (own ++ [c])) : Unfinished own :=
  fun asked n token ok r hmem => hu asked n token ok r (List.mem_append_left _ hmem)

theorem obeys_executePushNotification (hblank : Blank own) (hmeant : Meant own request push) :
    Obeys (protocol request) (Closed svc) own (executePushNotification svc push) := by
  refine obeys_call.mpr ⟨trivial, fun devices => ?_, fun e =>
    ⟨?_, fun _ => ?_, fun other userId _ hfound => ?_⟩⟩
  rotate_left
  · exact hblank.unfinished.append fun _ _ _ h => by cases h
  · exact (sent_append_idle rfl).trans hblank.sent
  · obtain ⟨devices, _, hd, -, -⟩ := hfound
    rcases List.mem_append.mp hd with hd | hd
    · exact absurd hd (hblank.devices other userId _)
    · cases List.mem_singleton.mp hd
  have hdevices : Unfinished
    (own ++ [said request (.findDeviceTokens push.userId) (.ok devices)]) :=
    hblank.unfinished.append fun _ _ _ h => by cases h
  refine obeys_call.mpr ⟨trivial, fun user => ?_, fun e =>
    ⟨?_, fun _ => ?_, fun other userId _ hfound => ?_⟩⟩
  rotate_left
  · exact hdevices.append fun _ _ _ h => by cases h
  · exact (sent_append_idle rfl).trans ((sent_append_idle rfl).trans hblank.sent)
  · obtain ⟨_, user, -, hu, -⟩ := hfound
    rcases List.mem_append.mp hu with hu | hu
    · rcases List.mem_append.mp hu with hu | hu
      · exact absurd hu (hblank.account other userId _)
      · cases List.mem_singleton.mp hu
    · cases List.mem_singleton.mp hu
  have huser := hdevices.append (c := said request (.findFcmToken push.userId) (.ok user))
    fun _ _ _ h => by cases h
  have hsent :=
    (sent_append_idle (c := said request (.findFcmToken push.userId) (.ok user)) rfl).trans
    ((sent_append_idle
      (c := said request (.findDeviceTokens push.userId) (.ok devices)) rfl).trans hblank.sent)
  change Obeys _ _ (own ++ [said request (.findDeviceTokens push.userId) (.ok devices)] ++
    [said request (.findFcmToken push.userId) (.ok user)]) (if svc.firebaseApp then _ else _)
  split
  · have hready : Ready (own ++ [said request (.findDeviceTokens push.userId) (.ok devices)] ++
        [said request (.findFcmToken push.userId) (.ok user)]) request push
          (user.join.filter (· ≠ ""))
        (tokenArray (user.join.filter (· ≠ "")) devices) := by
      refine ⟨huser, ?_, ⟨devices, user, by simp, by simp, rfl⟩, fun token he => ?_⟩
      · exact (hmeant.append fun _ h => by cases h).append fun _ h => by cases h
      · obtain rfl : user = some (some token) :=
          Option.join_eq_some_iff.mp (Option.filter_eq_some_iff.mp he).1
        exact List.mem_append_right _ List.mem_cons_self
    refine (obeys_sendChunks hready (by rw [hsent, List.nil_append]) rfl).mono (fun t x hx => ?_)
      fun t e hx => by cases hx.1
    refine ⟨hx.2.unfinished huser, fun ⟨e, he⟩ => (by rw [hx.1] at he; cases he),
      fun other userId tokens hfound _ => ?_⟩
    obtain ⟨devices', user', hd, hu, rfl⟩ := hx.2.found.mp hfound
    have hdevices' : devices' = devices := by
      simp only [List.mem_append, List.mem_singleton, hblank.devices other userId, false_or] at hd
      rcases hd with hd | hd <;> cases hd
      rfl
    have huser' : user' = user := by
      simp only [List.mem_append, List.mem_singleton, hblank.account other userId, false_or] at hu
      rcases hu with hu | hu <;> cases hu
      rfl
    rw [hx.2.sent, hsent, List.nil_append, hdevices', huser']
  · rename_i hoff
    exact ⟨huser, fun ⟨_, he⟩ => (by cases he), fun _ _ _ _ hon => absurd hon hoff⟩

/-! ### Beside the pushes -/

/-- The calls beside the pushes that the request may make at any time. -/
def Plain (request : Request) (i : Op) : Prop := Aside i ∧ ∀ own, Allowed own (request, i)

theorem Blank.extends {t : List Answered} (h : Blank own)
    (ht : ∃ tail, t = own ++ tail ∧ ∀ c ∈ tail, Plain request c.1.2) :
    Blank t ∧ ∀ n token, Took t n token → Took own n token := by
  obtain ⟨tail, rfl, htail⟩ := ht
  have hnew : ∀ {c : Answered}, ¬ Aside c.1.2 → c ∉ own → c ∉ own ++ tail := fun haside hown hmem =>
    (List.mem_append.mp hmem).elim hown fun hlast => haside (htail _ hlast).1
  refine ⟨⟨?_, fun asked n token ok r => hnew id (h.unfinished asked n token ok r),
    fun asked userId r => hnew id (h.devices asked userId r),
    fun asked userId r => hnew id (h.account asked userId r)⟩,
      fun n token ⟨asked, job, hmem, hstarted⟩ =>
    ⟨asked, job, (List.mem_append.mp hmem).resolve_right fun hlast => (htail _ hlast).1, hstarted⟩⟩
  rw [sent_append, h.sent, List.nil_append]
  refine List.flatMap_eq_nil_iff.mpr fun c hc => ?_
  have haside := (htail c hc).1
  obtain ⟨⟨asked, i⟩, r⟩ := c
  cases i with
  | sendEachForMulticast message => exact absurd haside id
  | _ => rfl

theorem obeys_plain {α : Type} {a : Work α} (hblank : Blank own) (h : Only (Plain request) a) :
    Obeys (protocol request)
    (fun t _ => Blank t ∧ ∀ n token, Took t n token → Took own n token) own a :=
  Keeps.mono (fun _ _ ht => hblank.extends ht) (keeps_remembering (fun own _ hi => hi.2 own) h own)

theorem only_notify : Only (Plain request) (notify svc push) := by
  refine only_recover (only_bind (only_perform ⟨trivial, fun _ => trivial⟩) fun id => ?_)
  split
  · exact only_perform ⟨trivial, fun _ => trivial⟩
  · exact only_pure _

theorem only_enqueue {job : PushJob} (hjob : ∀ push, job = .user push → request = .send push) :
    Only (Plain request) (enqueue svc job) := by
  unfold enqueue
  split
  · refine only_recover (only_bind (only_perform ⟨trivial, fun own => ?_⟩) fun _ => only_pure _)
    cases job with
    | user push => exact hjob push rfl
    | topic push => trivial
  · exact only_pure _

theorem only_executeTopicNotification {topicPush : TopicPush} :
    Only (Plain request) (executeTopicNotification svc topicPush) := by
  unfold executeTopicNotification
  split
  · exact only_recover (only_perform ⟨trivial, fun _ => trivial⟩)
  · exact only_pure _

theorem blank_nil : Blank [] where
  sent := rfl
  unfinished _ _ _ _ _ h := by cases h
  devices _ _ _ h := by cases h
  account _ _ _ h := by cases h

theorem obeys_sendPushNotification :
    Obeys (protocol (.send push)) (Closed svc) [] (sendPushNotification svc push) := by
  refine obeys_bind.mpr ((obeys_plain blank_nil only_notify).mono (fun t _ ht => ?_) fun t e ht =>
    ht.1.closed _)
  refine obeys_bind.mpr
    ((obeys_plain ht.1 (only_enqueue fun _ h => ?_)).mono (fun u queued hu => ?_)
    fun u e hu => hu.1.closed _)
  · exact congrArg Request.send (PushJob.user.inj h)
  · cases queued with
    | true => exact hu.1.closed _
    | false =>
      refine obeys_executePushNotification hu.1 (.inl ⟨rfl, fun n token htook => ?_⟩)
      obtain ⟨_, _, hmem, -⟩ := ht.2 n token (hu.2 n token htook)
      cases hmem

theorem obeys_sendTopicNotification {topicPush : TopicPush} :
    Obeys (protocol (.sendTopic topicPush)) (Closed svc) []
    (sendTopicNotification svc topicPush) := by
  refine obeys_bind.mpr ((obeys_plain blank_nil (only_enqueue fun _ h => by cases h)).mono
    (fun t queued ht => ?_) fun t e ht => ht.1.closed _)
  cases queued with
  | true => exact ht.1.closed _
  | false =>
    exact (obeys_plain ht.1 only_executeTopicNotification).mono (fun u _ hu => hu.1.closed _)
      fun u _ hu => hu.1.closed _

theorem obeys_process {job : Job PushJob} (hblank : Blank own)
    (htook : said (.work n) (.takeJob n) (.ok (some job)) ∈ own) :
    Obeys (protocol (.work n)) (Closed svc) own (process svc job.data) := by
  cases hdata : job.data with
  | topic push =>
    change Obeys _ _ own (if push.topic = "" then _ else _)
    split
    · exact hblank.closed _
    · exact (obeys_plain hblank only_executeTopicNotification).mono (fun u _ hu => hu.1.closed _)
        fun u _ hu => hu.1.closed _
  | user push =>
    change Obeys _ _ own (if push.userId = "" then _ else _)
    split
    · exact hblank.closed _
    · exact obeys_executePushNotification hblank (.inr ⟨n, job, rfl, htook, hdata⟩)

/-- What a request leaves behind: all that was found has been sent, and nothing by a push that is
answered by a failure, or by the attempt of a job that is reported as one. -/
structure Ended (svc : Services) (own : List Answered) (x : Request × Except Failure Unit) :
    Prop where
  complete : Complete svc own
  refused : ∀ push e, x = (.send push, .error e) → sent own = []
  failed : ∀ request n token r, said request (.finishJob n token false) r ∈ own → sent own = []

theorem Blank.ended (h : Blank own) (x : Request × Except Failure Unit) : Ended svc own x :=
  ⟨h.complete, fun _ _ _ => h.sent, fun request n token r hmem =>
    absurd hmem (h.unfinished request n token _ r)⟩

theorem Closed.ended {x : Except Failure Unit} (h : Closed svc own x)
    (hrefused : ∀ push e, (request, x) = (.send push, .error e) → ∃ e, x = .error e) :
    Ended svc own (request, x) where
  complete := h.complete
  refused push e he := h.failed (hrefused push e he)
  failed asked n token r hmem := absurd hmem (h.unfinished asked n token _ r)

theorem Complete.append {c : Answered} (h : Complete svc own) (hsent : sentBy c.1 = [])
    (hdevices : ∀ userId, c.1.2 ≠ .findDeviceTokens userId)
    (haccount : ∀ userId, c.1.2 ≠ .findFcmToken userId) :
    Complete svc (own ++ [c]) := by
  rintro asked userId tokens ⟨devices, user, hd, hu, rfl⟩ hon
  rw [sent_append_idle hsent]
  refine h asked userId _ ⟨devices, user, ?_, ?_, rfl⟩ hon
  · refine (List.mem_append.mp hd).resolve_right fun hlast => ?_
    cases List.mem_singleton.mp hlast
    exact hdevices userId rfl
  · refine (List.mem_append.mp hu).resolve_right fun hlast => ?_
    cases List.mem_singleton.mp hlast
    exact haccount userId rfl

theorem blank_took (r : Except Failure (Option (Job PushJob))) :
    Blank [said (.work n) (.takeJob n) r] where
  sent := rfl
  unfinished _ _ _ _ _ h := by cases List.mem_singleton.mp h
  devices _ _ _ h := by cases List.mem_singleton.mp h
  account _ _ _ h := by cases List.mem_singleton.mp h

theorem obeys_work : Obeys (protocol (.work n)) (fun t x => Ended svc t (.work n, x)) [] (work svc n) := by
  refine obeys_call.mpr ⟨⟨rfl, rfl⟩, fun found => ?_, fun e => (blank_took (.error e)).ended _⟩
  cases found with
  | none => exact (blank_took (.ok none)).ended _
  | some job =>
    have hjob : (said (.work n) (.takeJob n) (.ok (some job)) : Answered) ∈
        ([said (.work n) (.takeJob n) (.ok (some job))] : List Answered) := List.mem_cons_self
    have hfinish : ∀ {t : List Answered} {ok : Bool},
      [said (.work n) (.takeJob n) (.ok (some job))] ⊆ t →
        Unfinished t → Complete svc t → (ok = false → PushRequests.sent t = []) →
        Obeys (protocol (.work n)) (fun t x => Ended svc t (.work n, x)) t
          (call (.finishJob n job.started ok)) := by
      intro t ok hown hunfinished hcomplete hfailed
      have hended : ∀ r x, Ended svc (t ++ [said (.work n) (.finishJob n job.started ok) r])
        (.work n, x) := by
        refine fun r x => ⟨hcomplete.append rfl (fun _ h => by cases h) fun _ h => (by cases h),
          fun _ _ h => (by cases h), fun asked k attempt r' hmem => ?_⟩
        rw [sent_append_idle rfl]
        refine hfailed ?_
        rcases List.mem_append.mp hmem with hmem | hlast
        · exact absurd hmem (hunfinished asked k attempt false r')
        · cases List.mem_singleton.mp hlast
          rfl
      exact obeys_perform.mpr ⟨⟨rfl, ⟨_, job, hown hjob, rfl⟩, hunfinished, hfailed⟩, fun _ =>
        hended _ _, fun _ => hended _ _⟩
    refine obeys_bind.mpr (obeys_rescue.mpr (obeys_bind.mpr
      ((keeps_grows (obeys_process (blank_took _) hjob)).mono fun t x ht => ?_)))
    cases x with
    | ok _ => exact hfinish ht.1 ht.2.unfinished ht.2.complete fun h => by cases h
    | error e => exact hfinish ht.1 ht.2.unfinished ht.2.complete fun _ => ht.2.failed ⟨e, rfl⟩

theorem only_quietly {a : Work Unit} (h : Only (Plain request) a) :
    Only (Plain request) (quietly a) :=
  only_recover h

theorem only_registerDeviceToken {userId token : String}
    (hrequest : request = .register userId token ∨
    request = .updateFcmToken userId token) : Only (Plain request)
      (registerDeviceToken userId token) :=
  only_bind (only_perform ⟨trivial, fun _ => hrequest⟩) fun _ =>
    only_quietly (only_perform ⟨trivial, fun _ => hrequest⟩)

theorem only_unregisterDeviceToken {userId : String} {token : Option String} :
    Only (Plain (.unregister userId token)) (unregisterDeviceToken userId token) := by
  have hclear : Only (Plain (.unregister userId token)) (quietly (call (.clearFcmToken userId))) :=
    only_quietly (only_perform ⟨trivial, fun _ => .inl ⟨token, rfl⟩⟩)
  unfold unregisterDeviceToken
  split
  · rename_i given hgiven
    obtain rfl : token = some given := (Option.filter_eq_some_iff.mp hgiven).1
    exact only_bind (only_quietly (only_perform ⟨trivial, fun _ => rfl⟩)) fun _ => hclear
  · rename_i hnone
    exact only_bind (only_quietly (only_perform ⟨trivial, fun _ => ⟨token, rfl, hnone⟩⟩))
      fun _ => hclear

theorem keeps_program (svc : Services) (request : Request) :
    Keeps (remembering Allowed) (Ended svc) [] (inName request (handle svc request).run) := by
  refine (keeps_inName (ρ := fun i => Except Failure (Reply i))).mpr ?_
  have hplain : ∀ {a : Work Unit}, Only (Plain request) a →
      Keeps (protocol request) (fun t x => Ended svc t (request, x)) [] a.run := fun h =>
    Keeps.mono (fun _ _ ht => ht.1.ended _) (obeys_plain blank_nil h)
  cases request with
  | send push =>
    exact Keeps.mono (fun t x ht => ht.ended fun _ e he =>
      ⟨e, congrArg Prod.snd he⟩) obeys_sendPushNotification
  | sendTopic push =>
    exact Keeps.mono (fun t x ht => ht.ended fun _ _ he => by cases he) obeys_sendTopicNotification
  | work n => exact obeys_work
  | register userId token => exact hplain (only_registerDeviceToken (.inl rfl))
  | updateFcmToken id fcmToken =>
    refine hplain (only_bind (only_quietly (only_registerDeviceToken (.inr rfl))) fun _ => ?_)
    exact only_perform ⟨trivial, fun _ => .inr rfl⟩
  | unregister userId token => exact hplain only_unregisterDeviceToken

end Programs

end Livora.PushRequests
