import Livora.PasswordRequests

/-! Links in any order of the calls of the services that set passwords. A token that was drawn is
stored by its request only, once; what Redis holds under it was stored within the hour and not used
up. -/

namespace Livora.PasswordLinks

open EffectPrograms ProgramPools ProgramPools.System NamedPools CallTraces
open AuthBooks PasswordServices PasswordRequests KeyedRows
open LoginAttempts (User Credential)

/-! ### The system -/

inductive Outside where
  | pass (ms : ℕ)
  /-- Redis loses a link. -/
  | lose (token : Token)
  /-- An account is made, or changed; its password stays, or its credentials are deleted. -/
  | amend (row : User)

def passwordOf (user : User) : Option String := user.credentials.map Credential.passwordHash

def outside (w : World) : Outside → Option World
  | .pass ms => some { w with now := w.now + ms }
  | .lose token => some { w with tokens := Function.update w.tokens token none }
  | .amend row =>
    if (w.findById row.id).all (fun old =>
      passwordOf row == passwordOf old || row.credentials.isNone) = true then
      some { w with users := upsert User.id w.users row }
    else none

abbrev system (svc : Services) : System Request World Outcome Outside (List Answered) (Request × Op)
    (fun i => Except Failure (Reply i.2)) (Request × Except Failure String) where
  program request := inName request (handle svc request).run
  serve w i o := w.serve i.2 o
  outside := outside
  protocol := remembering (Allowed svc)
  first := []

abbrev Race := Pool World
  (Task (List Answered) (Request × Op) (fun i => Except Failure (Reply i.2))
    (Request × Except Failure String))

abbrev RaceEvent := Event Request Outcome Outside

abbrev Past := List (Made World (Request × Op) fun i => Except Failure (Reply i.2))

def quiescent (w : World) : Race := ⟨w, fun _ => none⟩

/-! ### Links -/

def Stores (call : Answered) (token : Token) (email : String) : Prop :=
  ∃ request r, call = said request (.storeToken token email) r

def Deletes (call : Answered) (token : Token) : Prop :=
  ∃ request, call = said request (.deleteToken token) (.ok ())

/-- The link was stored for the address within the hour before, and not used up. -/
def Live (pre : Past) (now : ℕ) (token : Token) (email : String) : Prop :=
  (∃ s ∈ pre, Stores s.call token email ∧ s.before.now ≤ now ∧ now < s.before.now + linkTtl) ∧
    ∀ m ∈ pre, ¬ Deletes m.call token

def Linked (pre : Past) (request : Request) (token : Token) (email : String) : Prop :=
  ∃ p m q, pre = p ++ m :: q ∧ m.call = said request (.getToken token) (.ok (some email)) ∧
    Live p m.before.now token email

def Sets (i : Request × Op) (id passwordHash : String) : Prop :=
  i.2 = .upsertPassword id passwordHash ∨ i.2 = .updatePassword id passwordHash

/-! ### What holds along a run -/

/-- A token that was drawn and not stored is known to one program only. -/
structure Fresh (h : Past) (drawn : Token) (st : ℕ → Option (List Answered)) : Prop where
  below : ∀ j own token, st j = some own → Drew own token → token < drawn
  apart : ∀ i j own own' token, st i = some own → st j = some own' → Drew own token →
    Drew own' token → i = j
  unstored : ∀ j own token, st j = some own → Drew own token → Unstored own token →
    ∀ m ∈ h, ∀ email, ¬ Stores m.call token email

structure Booked (w₀ : World) (h : Past) (w : World) : Prop where
  below : ∀ m ∈ h, ∀ token email, Stores m.call token email → token < w.drawn
  deleted : ∀ m ∈ h, ∀ token, Deletes m.call token → ∃ s ∈ h, ∃ email, Stores s.call token email
  live : ∀ token entry, w.tokens token = some entry →
    (∃ s ∈ h, Stores s.call token entry.email ∧ s.before.now ≤ w.now ∧
      entry.expiresAt = s.before.now + linkTtl) ∧ ∀ m ∈ h, ¬ Deletes m.call token
  links : ∀ pre m post, h = pre ++ m :: post → ∀ request token email,
    m.call = said request (.getToken token) (.ok (some email)) → Live pre m.before.now token email
  known : ∀ id, (w₀.findById id).isSome → (w.findById id).isSome
  passwords : ∀ id user₀ user, w₀.findById id = some user₀ → w.findById id = some user →
    ∀ passwordHash, passwordOf user = some passwordHash →
      passwordOf user₀ = some passwordHash ∨ ∃ m ∈ h, Sets m.call.1 id passwordHash

section Stages

variable {h : Past} {m : Made World (Request × Op) fun i => Except Failure (Reply i.2)} {n : Token}
  {st : ℕ → Option (List Answered)} {j : ℕ} {own : List Answered} {token : Token}

theorem drew_append {call : Answered} : Drew (own ++ [call]) token ↔
    Drew own token ∨ ∃ request, call = said request .randomBytes (.ok token) := by
  simp only [Drew, List.mem_append, List.mem_singleton, exists_or, eq_comm]

theorem Unstored.of_append {call : Answered} (hown : Unstored (own ++ [call]) token) :
    Unstored own token :=
  fun request email r hmem => hown request email r (List.mem_append_left _ hmem)

theorem Fresh.update (hf : Fresh h n st) {t : Option (List Answered)}
    (ht : ∀ own', t = some own' → ∀ token,
    Drew own' token → ∃ own, st j = some own ∧ Drew own token ∧
      (Unstored own' token → Unstored own token)) :
    Fresh h n (Function.update st j t) := by
  have hbefore : ∀ k own' token, Function.update st j t k = some own' → Drew own' token →
      ∃ own, st k = some own ∧ Drew own token ∧ (Unstored own' token → Unstored own token) := by
    intro k own' token hk hdrew
    rcases stage_update hk with ⟨rfl, hown⟩ | ⟨-, hown⟩
    · exact ht own' hown token hdrew
    · exact ⟨own', hown, hdrew, id⟩
  refine ⟨fun k own' token hk hdrew => ?_, fun i k own' own'' token hi hk hdrew hdrew' => ?_,
    fun k own' token hk hdrew hunstored => ?_⟩
  · obtain ⟨own, hown, hdrew, -⟩ := hbefore k own' token hk hdrew
    exact hf.below k own token hown hdrew
  · obtain ⟨own, hown, hdrew, -⟩ := hbefore i own' token hi hdrew
    obtain ⟨other, hother, hdrew', -⟩ := hbefore k own'' token hk hdrew'
    exact hf.apart i k own other token hown hother hdrew hdrew'
  · obtain ⟨own, hown, hdrew, himp⟩ := hbefore k own' token hk hdrew
    exact hf.unstored k own token hown hdrew (himp hunstored)

theorem Fresh.start (hf : Fresh h n st) (j : ℕ) : Fresh h n (Function.update st j (some [])) :=
  hf.update fun own' hown token hdrew => by
    cases hown
    obtain ⟨_, hmem⟩ := hdrew
    cases hmem

theorem Fresh.stop (hf : Fresh h n st) (j : ℕ) : Fresh h n (Function.update st j none) :=
  hf.update fun _ hown => by cases hown

theorem Fresh.call (hf : Fresh h n st) (hj : st j = some own)
    (hdraws : ∀ request token, m.call ≠ said request .randomBytes (.ok token))
    (hstores : ∀ token email, ¬ Stores m.call token email) :
    Fresh (h ++ [m]) n (Function.update st j (some (own ++ [m.call]))) := by
  have hupdated : Fresh h n (Function.update st j (some (own ++ [m.call]))) := by
    refine hf.update fun own' hown token hdrew => ?_
    cases hown
    rcases drew_append.mp hdrew with hdrew | ⟨request, hdraw⟩
    · exact ⟨own, hj, hdrew, Unstored.of_append⟩
    · exact absurd hdraw (hdraws request token)
  refine ⟨hupdated.below, hupdated.apart, fun k own' token hk hdrew hunstored m' hm' email => ?_⟩
  rcases List.mem_append.mp hm' with hm' | hlast
  · exact hupdated.unstored k own' token hk hdrew hunstored m' hm' email
  · cases List.mem_singleton.mp hlast
    exact hstores token email

theorem Fresh.draw (hf : Fresh h n st) (hj : st j = some own) (hstored : ∀ m ∈ h, ∀ token email,
    Stores m.call token email → token < n) {request : Request}
    (hm : m.call = said request .randomBytes (.ok n)) :
    Fresh (h ++ [m]) (n + 1) (Function.update st j (some (own ++ [m.call]))) := by
  have hdrew : ∀ k own' token, Function.update st j (some (own ++ [m.call])) k = some own' →
      Drew own' token → (token = n ∧ k = j) ∨ ∃ own, st k = some own ∧ Drew own token ∧
        (Unstored own' token → Unstored own token) := by
    intro k own' token hk hdrew
    rcases stage_update hk with ⟨rfl, hown⟩ | ⟨-, hown⟩
    · cases hown
      rcases drew_append.mp hdrew with hdrew | ⟨other, hdraw⟩
      · exact .inr ⟨own, hj, hdrew, Unstored.of_append⟩
      · rw [hm] at hdraw
        cases hdraw
        exact .inl ⟨rfl, rfl⟩
    · exact .inr ⟨own', hown, hdrew, id⟩
  refine ⟨fun k own' token hk h' => ?_, fun i k own' own'' token hi hk h' h'' => ?_,
    fun k own' token hk h' hunstored m' hm' email hstores => ?_⟩
  · rcases hdrew k own' token hk h' with ⟨rfl, -⟩ | ⟨own, hown, hdrew, -⟩
    · exact Nat.lt_succ_self _
    · exact Nat.lt_succ_of_lt (hf.below k own token hown hdrew)
  · rcases hdrew i own' token hi h' with ⟨rfl, rfl⟩ | ⟨own, hown, hdrew₁, -⟩
    · rcases hdrew k own'' token hk h'' with ⟨-, rfl⟩ | ⟨other, hother, hdrew₂, -⟩
      · rfl
      · exact absurd (hf.below k other token hother hdrew₂) (lt_irrefl _)
    · rcases hdrew k own'' token hk h'' with ⟨rfl, -⟩ | ⟨other, hother, hdrew₂, -⟩
      · exact absurd (hf.below i own token hown hdrew₁) (lt_irrefl _)
      · exact hf.apart i k own other token hown hother hdrew₁ hdrew₂
  · have hm'h : m' ∈ h := by
      rcases List.mem_append.mp hm' with hm' | hlast
      · exact hm'
      · cases List.mem_singleton.mp hlast
        obtain ⟨other, r, hcall⟩ := hstores
        rw [hm] at hcall
        cases hcall
    rcases hdrew k own' token hk h' with ⟨rfl, -⟩ | ⟨own, hown, hdrew, himp⟩
    · exact lt_irrefl _ (hstored m' hm'h token email hstores)
    · exact hf.unstored k own token hown hdrew (himp hunstored) m' hm'h email hstores

theorem Fresh.store (hf : Fresh h n st) (hj : st j = some own) (hdrew : Drew own token)
    {email : String} (hm : Stores m.call token email) :
    Fresh (h ++ [m]) n (Function.update st j (some (own ++ [m.call]))) := by
  obtain ⟨request, r, hcall⟩ := hm
  have hupdated : Fresh h n (Function.update st j (some (own ++ [m.call]))) := by
    refine hf.update fun own' hown token' hdrew' => ?_
    cases hown
    rcases drew_append.mp hdrew' with hdrew' | ⟨other, hdraw⟩
    · exact ⟨own, hj, hdrew', Unstored.of_append⟩
    · rw [hcall] at hdraw
      cases hdraw
  refine ⟨hupdated.below, hupdated.apart,
    fun k own' token' hk hdrew' hunstored m' hm' email' hstores => ?_⟩
  rcases List.mem_append.mp hm' with hm' | hlast
  · exact hupdated.unstored k own' token' hk hdrew' hunstored m' hm' email' hstores
  · cases List.mem_singleton.mp hlast
    obtain ⟨other, r', hcall'⟩ := hstores
    rw [hcall] at hcall'
    cases hcall'
    -- Only the program that has drawn it could have it unstored, and it is the one that stores it.
    have hkj : k = j :=
      hupdated.apart k j own' (own ++ [m.call]) token hk (Function.update_self ..) hdrew'
      (drew_append.mpr (.inl hdrew))
    subst hkj
    rw [Function.update_self] at hk
    cases hk
    exact hunstored request email r (hcall ▸ List.mem_append_right _ List.mem_cons_self)

end Stages

section Books

variable {svc : Services} {w₀ w w' : World} {h : Past} {st : ℕ → Option (List Answered)} {j : ℕ}
  {own : List Answered} {token : Token} {email : String}
  {m : Made World (Request × Op) fun i => Except Failure (Reply i.2)}

theorem Booked.live_of_live (hb : Booked w₀ h w) (hlive : w.live token = some email) :
    Live h w.now token email := by
  obtain ⟨entry, hentry, rfl⟩ := Option.map_eq_some_iff.mp hlive
  obtain ⟨hfound, hnow⟩ := Option.filter_eq_some_iff.mp hentry
  obtain ⟨⟨s, hs, hstores, hbefore, hexpires⟩, hdeletes⟩ := hb.live token entry hfound
  rw [decide_eq_true_eq, hexpires] at hnow
  exact ⟨⟨s, hs, hstores, hbefore, hnow⟩, hdeletes⟩

theorem Booked.append (hb : Booked w₀ h w) (hm : m.before = w) (hdrawn : w.drawn ≤ w'.drawn)
    (hnow : w'.now = w.now) (hstores : ∀ token email, Stores m.call token email → token < w.drawn)
    (hdeletes : ∀ token, Deletes m.call token → ∃ s ∈ h, ∃ email, Stores s.call token email)
    (htokens : ∀ token entry, w'.tokens token = some entry → ¬ Deletes m.call token ∧
      (w.tokens token = some entry ∨ Stores m.call token entry.email ∧
        entry.expiresAt = w.now + linkTtl ∧ ∀ d ∈ h, ¬ Deletes d.call token))
    (hlink : ∀ request token email, m.call = said request (.getToken token) (.ok (some email)) →
      w.live token = some email)
    (hknown : ∀ id, (w.findById id).isSome → (w'.findById id).isSome)
    (hpasswords : ∀ id user, w'.findById id = some user → ∀ passwordHash,
      passwordOf user = some passwordHash →
      w.findById id = none ∨
        (∃ old, w.findById id = some old ∧ passwordOf old = some passwordHash) ∨
        Sets m.call.1 id passwordHash) :
    Booked w₀ (h ++ [m]) w' where
  below m' hm' token email hs := by
    rcases List.mem_append.mp hm' with hm' | hlast
    · exact lt_of_lt_of_le (hb.below m' hm' token email hs) hdrawn
    · cases List.mem_singleton.mp hlast
      exact lt_of_lt_of_le (hstores token email hs) hdrawn
  deleted m' hm' token hd := by
    have hstored : ∃ s ∈ h, ∃ email, Stores s.call token email := by
      rcases List.mem_append.mp hm' with hm' | hlast
      · exact hb.deleted m' hm' token hd
      · cases List.mem_singleton.mp hlast
        exact hdeletes token hd
    exact hstored.imp fun s hs => ⟨List.mem_append_left _ hs.1, hs.2⟩
  live token entry hentry := by
    obtain ⟨hnone, hcases⟩ := htokens token entry hentry
    rw [hnow]
    rcases hcases with hold | ⟨hnew, hexpires, hclean⟩
    · obtain ⟨⟨s, hs, hrest⟩, hclean⟩ := hb.live token entry hold
      refine ⟨⟨s, List.mem_append_left _ hs, hrest⟩, fun m' hm' => ?_⟩
      rcases List.mem_append.mp hm' with hm' | hlast
      · exact hclean m' hm'
      · cases List.mem_singleton.mp hlast
        exact hnone
    · refine
        ⟨⟨m, List.mem_append_right _ List.mem_cons_self, hnew, by rw [hm], by rw [hm, hexpires]⟩,
        fun m' hm' => ?_⟩
      rcases List.mem_append.mp hm' with hm' | hlast
      · exact hclean m' hm'
      · cases List.mem_singleton.mp hlast
        exact hnone
  links := forall_split_append (p := fun pre m => ∀ request token email,
    m.call = said request (.getToken token) (.ok (some email)) →
      Live pre m.before.now token email) hb.links
    fun request token email hcall => hm ▸ hb.live_of_live (hlink request token email hcall)
  known id hid := hknown id (hb.known id hid)
  passwords id user₀ user hid hfound passwordHash hpassword := by
    rcases hpasswords id user hfound passwordHash hpassword with hnone | ⟨old, hold, hsame⟩ | hsets
    · have hsome := hb.known id (by rw [hid]; rfl)
      rw [hnone] at hsome
      cases hsome
    · exact (hb.passwords id user₀ old hid hold passwordHash hsame).imp_right fun hset =>
        hset.imp fun m hm => ⟨List.mem_append_left _ hm.1, hm.2⟩
    · exact .inr ⟨m, List.mem_append_right _ List.mem_cons_self, hsets⟩

theorem Booked.idle (hb : Booked w₀ h w) (hm : m.before = w) (hdrawn : w.drawn ≤ w'.drawn)
    (hnow : w'.now = w.now) (htokens : w'.tokens = w.tokens) (husers : w'.users = w.users)
    (hstores : ∀ token email, ¬ Stores m.call token email)
    (hdeletes : ∀ token, ¬ Deletes m.call token)
    (hlink : ∀ request token email, m.call = said request (.getToken token) (.ok (some email)) →
      w.live token = some email) : Booked w₀ (h ++ [m]) w' := by
  have hsame : ∀ id, w'.findById id = w.findById id := fun id => by
    rw [World.findById, husers, World.findById]
  refine hb.append hm hdrawn hnow (fun token email hs => absurd hs (hstores token email))
    (fun token hd => absurd hd (hdeletes token)) (fun token entry hentry =>
      ⟨hdeletes token, .inl ?_⟩) hlink
    (fun id hid => by rw [hsame]; exact hid) fun id user hfound passwordHash hpassword =>
      .inr (.inl ?_)
  · rw [← htokens]
    exact hentry
  · exact ⟨user, (hsame id).symm.trans hfound, hpassword⟩

theorem findById_withPassword (userId passwordHash : String) (id : String) :
    lookup User.id (w.users.map (World.withPassword userId passwordHash)) id =
      (w.findById id).map (World.withPassword userId passwordHash) :=
  lookup_map fun user => by unfold World.withPassword; split <;> rfl

abbrev next (w : World) (request : Request) (i : Op) (o : Outcome) :
    Made World (Request × Op) fun i => Except Failure (Reply i.2) := ⟨w, (request, i), w.reply i o⟩

structure Kept (w₀ : World) (h : Past) (w : World) (st : ℕ → Option (List Answered)) : Prop where
  booked : Booked w₀ h w
  fresh : Fresh h w.drawn st

variable {request : Request} {i : Op} {o : Outcome}

theorem call_idle (hk : Kept w₀ h w st) (hj : st j = some own) (heffect : w.after i o.delivery = w)
    (hdraws : i ≠ .randomBytes) (hstores : ∀ token email, i ≠ .storeToken token email)
    (hdeletes : ∀ token, i ≠ .deleteToken token)
    (hlink : ∀ token email, said request i (w.reply i o) = said request (.getToken token)
      (.ok (some email)) →
      w.live token = some email) :
    Kept w₀ (h ++ [next w request i o]) (w.after i o.delivery)
      (Function.update st j (some (own ++ [(next w request i o).call]))) := by
  have hop : ∀ {asked : Request} {i' : Op} {r : Except Failure (Reply i')},
      (next w request i o).call = said asked i' r → i = i' :=
        fun he => congrArg (fun c : Answered => c.1.2) he
  have hnostore : ∀ token email, ¬ Stores (next w request i o).call token email :=
    fun token email ⟨_, _, he⟩ => hstores token email (hop he)
  rw [heffect]
  refine ⟨hk.booked.idle rfl le_rfl rfl rfl rfl hnostore (fun token ⟨_, he⟩ =>
    hdeletes token (hop he))
    fun asked token email he => ?_, hk.fresh.call hj (fun _ _ he => hdraws (hop he)) hnostore⟩
  have hasked : request = asked := congrArg (fun c : Answered => c.1.1) he
  subst hasked
  exact hlink token email he

theorem call_draw (hk : Kept w₀ h w st) (hj : st j = some own) :
    Kept w₀ (h ++ [next w request .randomBytes o]) (w.after .randomBytes o.delivery)
      (Function.update st j (some (own ++ [(next w request .randomBytes o).call]))) where
  booked := hk.booked.idle rfl (Nat.le_succ _) rfl rfl rfl (fun _ _ ⟨_, _, he⟩ => by cases he)
    (fun _ ⟨_, he⟩ => by cases he) fun _ _ _ he => by cases he
  fresh := hk.fresh.draw hj hk.booked.below rfl

theorem call_store (hk : Kept w₀ h w st) (hj : st j = some own)
    (hallowed : Allowed svc own (request, .storeToken token email)) :
    Kept w₀ (h ++ [next w request (.storeToken token email) o])
    (w.after (.storeToken token email) o.delivery)
      (Function.update st j
        (some (own ++ [(next w request (.storeToken token email) o).call]))) := by
  obtain ⟨hdrew, hunstored, -⟩ := hallowed
  have hnone := hk.fresh.unstored j own token hj hdrew hunstored
  have hclean : ∀ d ∈ h, ¬ Deletes d.call token := by
    intro d hd hdeletes
    obtain ⟨s, hs, email', hstores⟩ := hk.booked.deleted d hd token hdeletes
    exact hnone s hs email' hstores
  have hm : Stores (next w request (.storeToken token email) o).call token email :=
    ⟨request, _, rfl⟩
  have hafter : w.after (.storeToken token email) o.delivery =
      if o.delivery.applied then w.effect (.storeToken token email) else w := by
    change (if o.delivery.applied && true then _ else w) = _
    rw [Bool.and_true]
  have hdrawn : (w.after (.storeToken token email) o.delivery).drawn = w.drawn := by
    rw [hafter]
    split <;> rfl
  refine ⟨hk.booked.append rfl hdrawn.ge (by rw [hafter]; split <;> rfl) ?_
    (fun _ ⟨_, he⟩ => by cases he) ?_
    (fun _ _ _ he => by cases he) ?_ ?_, ?_⟩
  · rintro token' email' ⟨other, r, he⟩
    cases he
    exact hk.fresh.below j own _ hj hdrew
  · intro token' entry hentry
    refine ⟨fun ⟨_, he⟩ => (by cases he), ?_⟩
    rw [hafter] at hentry
    split at hentry
    · by_cases htoken : token' = token
      · subst htoken
        have hentry : Function.update w.tokens token' (some ⟨email, w.now + linkTtl⟩) token' =
            some entry := hentry
        rw [Function.update_self] at hentry
        cases hentry
        exact .inr ⟨hm, rfl, hclean⟩
      · have hentry : Function.update w.tokens token (some ⟨email, w.now + linkTtl⟩) token' =
            some entry := hentry
        rw [Function.update_of_ne htoken] at hentry
        exact .inl hentry
    · exact .inl hentry
  · intro id hid
    rw [hafter]
    split <;> exact hid
  · intro id user hfound passwordHash hpassword
    rw [hafter] at hfound
    split at hfound <;> exact .inr (.inl ⟨user, hfound, hpassword⟩)
  · rw [hdrawn]
    exact hk.fresh.store hj hdrew hm

theorem call_delete (hk : Kept w₀ h w st) (hr : Recalled h st) (hj : st j = some own)
    (hallowed : Allowed svc own (request, .deleteToken token)) :
    Kept w₀ (h ++ [next w request (.deleteToken token) o]) (w.after (.deleteToken token) o.delivery)
      (Function.update st j (some (own ++ [(next w request (.deleteToken token) o).call]))) := by
  obtain ⟨email, hread⟩ := hallowed
  -- The link was live when it was read, so it had been stored.
  have hstored : ∃ s ∈ h, ∃ email, Stores s.call token email := by
    obtain ⟨m, hm, hcall⟩ := List.mem_map.mp (hr j own hj hread)
    obtain ⟨pre, post, rfl⟩ := List.append_of_mem hm
    obtain ⟨⟨s, hs, hstores, -⟩, -⟩ := hk.booked.links pre m post rfl request token email hcall
    exact ⟨s, List.mem_append_left _ hs, email, hstores⟩
  have hafter : w.after (.deleteToken token) o.delivery =
      if o.delivery.applied then w.effect (.deleteToken token) else w := by
    change (if o.delivery.applied && true then _ else w) = _
    rw [Bool.and_true]
  have hdrawn : (w.after (.deleteToken token) o.delivery).drawn = w.drawn := by
    rw [hafter]
    split <;> rfl
  have hnostore : ∀ token' email',
    ¬ Stores (next w request (.deleteToken token) o).call token' email' :=
    fun _ _ ⟨_, _, he⟩ => by cases he
  refine ⟨hk.booked.append rfl hdrawn.ge (by rw [hafter]; split <;> rfl)
    (fun token' email' hs => absurd hs (hnostore token' email')) ?_ ?_
      (fun _ _ _ he => by cases he) ?_ ?_, ?_⟩
  · rintro token' ⟨other, he⟩
    cases congrArg (fun c : Answered => c.1.2) he
    exact hstored
  · intro token' entry hentry
    rw [hafter] at hentry
    split at hentry
    · have hentry : Function.update w.tokens token none token' = some entry := hentry
      by_cases htoken : token' = token
      · subst htoken
        rw [Function.update_self] at hentry
        cases hentry
      · rw [Function.update_of_ne htoken] at hentry
        exact ⟨fun ⟨_, he⟩ =>
          htoken (Op.deleteToken.inj (congrArg (fun c : Answered => c.1.2) he)).symm, .inl hentry⟩
    · rename_i hlost
      refine ⟨fun ⟨other, he⟩ => hlost ?_, .inl hentry⟩
      cases congrArg (fun c : Answered => c.1.2) he
      have hreply : w.reply (.deleteToken token) o = .ok () := eq_of_heq (Sigma.mk.inj he).2
      exact applied_of_done (PinVerification.Delivery.answer_ok hreply).1
  · intro id hid
    rw [hafter]
    split <;> exact hid
  · intro id user hfound passwordHash hpassword
    rw [hafter] at hfound
    split at hfound <;> exact .inr (.inl ⟨user, hfound, hpassword⟩)
  · rw [hdrawn]
    exact hk.fresh.call hj (fun _ _ he => by cases he) hnostore

theorem call_password (hk : Kept w₀ h w st) (hj : st j = some own) {userId passwordHash : String}
    (hi : i = .upsertPassword userId passwordHash ∨ i = .updatePassword userId passwordHash) :
    Kept w₀ (h ++ [next w request i o]) (w.after i o.delivery)
      (Function.update st j (some (own ++ [(next w request i o).call]))) := by
  have hop : ∀ {asked : Request} {i' : Op} {r : Except Failure (Reply i')},
      (next w request i o).call = said asked i' r → i = i' :=
        fun he => congrArg (fun c : Answered => c.1.2) he
  have hafter : w.after i o.delivery = w ∨ w.after i o.delivery =
      { w with users := w.users.map (World.withPassword userId passwordHash) } := by
    rcases hi with rfl | rfl <;>
    · simp only [World.after, World.effect]
      split
      · exact .inr rfl
      · exact .inl rfl
  have hdrawn : (w.after i o.delivery).drawn = w.drawn := by rcases hafter with he | he <;> rw [he]
  have hnostore : ∀ token email, ¬ Stores (next w request i o).call token email := by
    rintro token email ⟨_, _, he⟩
    rcases hi with rfl | rfl <;> cases hop he
  refine ⟨hk.booked.append rfl hdrawn.ge (by rcases hafter with he | he <;> rw [he])
    (fun token email hs => absurd hs (hnostore token email)) ?_ ?_ ?_ ?_ ?_, ?_⟩
  · rintro token ⟨_, he⟩
    rcases hi with rfl | rfl <;> cases hop he
  · intro token entry hentry
    refine ⟨?_, .inl ?_⟩
    · rintro ⟨_, he⟩
      rcases hi with rfl | rfl <;> cases hop he
    · rcases hafter with he | he <;> rw [he] at hentry <;> exact hentry
  · intro _ token email he
    rcases hi with rfl | rfl <;> cases hop he
  · intro id hid
    rcases hafter with he | he <;> rw [he]
    · exact hid
    · rw [World.findById, findById_withPassword, Option.isSome_map]
      exact hid
  · intro id user hfound passwordHash' hpassword
    rcases hafter with he | he <;> rw [he] at hfound
    · exact .inr (.inl ⟨user, hfound, hpassword⟩)
    · rw [World.findById, findById_withPassword] at hfound
      obtain ⟨old, hold, rfl⟩ := Option.map_eq_some_iff.mp hfound
      by_cases hid : old.id = userId
      · rw [World.withPassword, if_pos hid] at hpassword
        cases hpassword
        have hidold : old.id = id := key_of_lookup hold
        rw [← hidold, hid]
        exact .inr (.inr hi)
      · rw [World.withPassword, if_neg hid] at hpassword
        exact .inr (.inl ⟨old, hold, hpassword⟩)
  · rw [hdrawn]
    refine hk.fresh.call hj (fun _ _ he => ?_) hnostore
    rcases hi with rfl | rfl <;> cases hop he

theorem call_kept (hk : Kept w₀ h w st) (hr : Recalled h st) (hj : st j = some own)
    (hallowed : Allowed svc own (request, i)) :
    Kept w₀ (h ++ [next w request i o]) (w.after i o.delivery)
      (Function.update st j (some (own ++ [(next w request i o).call]))) := by
  cases i with
  | randomBytes => exact call_draw hk hj
  | storeToken token email => exact call_store hk hj hallowed
  | deleteToken token => exact call_delete hk hr hj hallowed
  | upsertPassword userId passwordHash => exact call_password hk hj (.inl rfl)
  | updatePassword userId passwordHash => exact call_password hk hj (.inr rfl)
  | getToken token =>
    refine call_idle hk hj (ite_self w) (fun h => by cases h) (fun _ _ h => by cases h)
      (fun _ h => by cases h)
      fun token' email he => ?_
    cases congrArg (fun c : Answered => c.1.2) he
    have hreply : w.reply (.getToken token) o = .ok (some email) := eq_of_heq (Sigma.mk.inj he).2
    exact (PinVerification.Delivery.answer_ok hreply).2
  | _ =>
    refine call_idle hk hj ?_ (fun h => by cases h) (fun _ _ h => by cases h)
      (fun _ h => by cases h)
      fun _ _ he => by cases he
    exact ite_self w

theorem outside_kept (hk : Kept w₀ h w st) {d : Outside} (hw : outside w d = some w') :
    Kept w₀ h w' st := by
  cases d with
  | pass ms =>
    cases hw
    refine ⟨{ hk.booked with live := fun token entry hentry => ?_ }, hk.fresh⟩
    obtain ⟨⟨s, hs, hstores, hbefore, hexpires⟩, hclean⟩ := hk.booked.live token entry hentry
    exact ⟨⟨s, hs, hstores, hbefore.trans (Nat.le_add_right _ _), hexpires⟩, hclean⟩
  | lose token =>
    cases hw
    refine ⟨{ hk.booked with live := fun token' entry hentry => ?_ }, hk.fresh⟩
    have hentry : Function.update w.tokens token none token' = some entry := hentry
    by_cases htoken : token' = token
    · subst htoken
      rw [Function.update_self] at hentry
      cases hentry
    · rw [Function.update_of_ne htoken] at hentry
      exact hk.booked.live token' entry hentry
  | amend row =>
    simp only [outside] at hw
    split at hw
    · rename_i hrow
      cases hw
      refine ⟨{ hk.booked with known := fun id hid => ?_, passwords := fun id user₀ user hid hfound => ?_ }, hk.fresh⟩
      · rw [World.findById, lookup_upsert]
        split
        · rfl
        · exact hk.booked.known id hid
      · rw [World.findById, lookup_upsert] at hfound
        split at hfound
        · rename_i hkey
          cases hfound
          subst hkey
          obtain ⟨old, hold⟩ :=
            Option.isSome_iff_exists.mp (hk.booked.known row.id (by rw [hid]; rfl))
          intro passwordHash hpassword
          rw [hold, Option.all_some, Bool.or_eq_true, beq_iff_eq] at hrow
          rcases hrow with hsame | hnone
          · exact hk.booked.passwords row.id user₀ old hid hold passwordHash
              (hsame.symm.trans hpassword)
          · rw [passwordOf, Option.isNone_iff_eq_none.mp hnone] at hpassword
            cases hpassword
        · exact hk.booked.passwords id user₀ user hid hfound
    · cases hw

end Books

end Livora.PasswordLinks
