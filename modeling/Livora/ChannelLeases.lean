import Livora.SequenceManager

/-! Which callbacks of `withChannelAccount` run with which key pair. A lease that runs
out of time takes the primary key pair without marking it; each key pair is with one
callback at a time along every run in which such a lease finds the primary key pair
outside the pool, and with nobody. -/

namespace Livora.ChannelLeases

open DelegatedRedemption SequenceManager TransitionRuns

variable {sdk : Sdk} {m : Manager sdk} {l l' : Leases sdk} {e : Event} {i j : ℕ}
  {k k' : sdk.Keypair} {client : Option (Client sdk)} {inUse : List String}

def RunsWith (l : Leases sdk) (j : ℕ) (k : sdk.Keypair) : Prop := l.clients j = some (.leased k)

def Unavailable (m : Manager sdk) (l : Leases sdk) (k : sdk.Keypair) : Prop :=
  sdk.publicKey k ∈ l.inUseChannels ∨
    sdk.publicKey k ∉ m.channelPool.map fun channel => sdk.publicKey channel

/-- A lease that runs out of time finds the primary key pair outside the pool, and with nobody. -/
def Spare (m : Manager sdk) (l : Leases sdk) : Event → Prop
  | .check j elapsedMs => ∀ timeoutMs, l.clients j = some (.waiting timeoutMs) →
      timeoutMs ≤ elapsedMs →
        (sdk.publicKey m.primaryWorkerKeypair ∉
          m.channelPool.map fun channel => sdk.publicKey channel) ∧
        ∀ i k, RunsWith l i k → sdk.publicKey k ≠ sdk.publicKey m.primaryWorkerKeypair
  | _ => True

/-- What runs is alone with its key pair, which is marked or outside the pool. -/
structure Exclusive (m : Manager sdk) (l : Leases sdk) : Prop where
  alone : ∀ i j k k', RunsWith l i k → RunsWith l j k' → sdk.publicKey k = sdk.publicKey k' → i = j
  marked : ∀ i k, RunsWith l i k → Unavailable m l k

theorem runsWith_put : RunsWith (({ l with inUseChannels := inUse }).put j client) i k ↔
    if i = j then client = some (.leased k) else RunsWith l i k := by
  unfold RunsWith
  split
  · subst_vars
    rw [Leases.put_clients_self]
  · rw [Leases.put_clients_of_ne ‹_›]

theorem firstFree_free (h : firstFree m inUse = some k) :
    k ∈ m.channelPool ∧ sdk.publicKey k ∉ inUse :=
  ⟨List.mem_of_find?_eq_some h,
    by simpa using List.find?_some (p := fun k => decide (sdk.publicKey k ∉ inUse)) h⟩

theorem Exclusive.begins (h : Exclusive m l) (hnew : ∀ i k', RunsWith l i k' →
      sdk.publicKey k' ≠ sdk.publicKey k) (hold : ∀ name ∈ l.inUseChannels, name ∈ inUse)
    (hmarked : sdk.publicKey k ∈ inUse ∨
      sdk.publicKey k ∉ m.channelPool.map fun channel => sdk.publicKey channel) :
    Exclusive m (({ l with inUseChannels := inUse }).put j (some (.leased k))) := by
  constructor
  · intro a b ka kb ha hb hname
    rw [runsWith_put] at ha hb
    split at ha <;> split at hb
    · omega
    · cases ha
      exact absurd hname.symm (hnew b kb hb)
    · cases hb
      exact absurd hname (hnew a ka ha)
    · exact h.alone a b ka kb ha hb hname
  · intro a ka ha
    rw [runsWith_put] at ha
    split at ha
    · cases ha
      exact hmarked
    · exact (h.marked a ka ha).imp_left (hold _)

theorem Exclusive.without (h : Exclusive m l) (hclient : ∀ k, client ≠ some (.leased k))
    (hkept : ∀ i k, i ≠ j → RunsWith l i k → sdk.publicKey k ∈ l.inUseChannels →
      sdk.publicKey k ∈ inUse) :
    Exclusive m (({ l with inUseChannels := inUse }).put j client) := by
  have hother {a : ℕ} {ka : sdk.Keypair}
      (ha : RunsWith (({ l with inUseChannels := inUse }).put j client) a ka) :
      a ≠ j ∧ RunsWith l a ka := by
    rw [runsWith_put] at ha
    split at ha
    · exact absurd ha (hclient ka)
    · exact ⟨‹_›, ha⟩
  constructor
  · intro a b ka kb ha hb hname
    exact h.alone a b ka kb (hother ha).2 (hother hb).2 hname
  · intro a ka ha
    obtain ⟨hne, ha⟩ := hother ha
    exact (h.marked a ka ha).imp_left (hkept a ka hne ha)

theorem exclusive_step (h : Exclusive m l) (hspare : Spare m l e) (hs : step m l e = some l') :
    Exclusive m l' := by
  cases e with
  | acquire j timeoutMs =>
    cases hj : l.clients j with
    | some client =>
      simp only [step, hj] at hs
      cases hs
    | none =>
      rw [step_acquire hj] at hs
      cases hs
      exact h.without (fun k hk => by cases hk) fun _ _ _ _ hin => hin
  | check j elapsedMs =>
    simp only [step] at hs
    split at hs
    · rename_i timeoutMs hj
      cases hs
      unfold acquireChannelAccount
      split
      · split
        · rename_i k hfree
          obtain ⟨hpool, hunused⟩ := firstFree_free hfree
          refine h.begins (fun i k' hi hname => ?_) (fun _ => List.mem_cons_of_mem _)
            (.inl List.mem_cons_self)
          rcases h.marked i k' hi with hin | hout
          · exact hunused (hname ▸ hin)
          · exact hout (hname ▸ List.mem_map_of_mem hpool)
        · exact h
      · rename_i htime
        obtain ⟨hout, hnobody⟩ := hspare timeoutMs hj (Nat.not_lt.mp htime)
        exact h.begins hnobody (fun _ hin => hin) (.inr hout)
    · cases hs
  | release j =>
    simp only [step] at hs
    split at hs
    · rename_i k hj
      cases hs
      refine h.without (fun k hk => by cases hk) fun i k' hne hi hin => ?_
      refine List.mem_filter.mpr ⟨hin, ?_⟩
      have hname : sdk.publicKey k' ≠ sdk.publicKey k := fun hname =>
        hne (h.alone i j k' k hi hj hname)
      simpa using hname
    · cases hs

theorem exclusive_idle : Exclusive m Leases.idle :=
  ⟨fun _ _ _ _ h => (by cases h), fun _ _ h => (by cases h)⟩

/-- Nobody else's key pair can be leased once the event has happened, if it is a release. -/
def ReleasesItsOwn (m : Manager sdk) (l : Leases sdk) (e : Event) : Prop :=
  ∀ j l', e = .release j → step m l e = some l' → ∀ i k k', RunsWith l' i k →
    firstFree m l'.inUseChannels = some k' → sdk.publicKey k' ≠ sdk.publicKey k

/-- Along every run in which a lease that runs out of time finds the primary key pair outside the
pool and with nobody, no two callbacks run with one key pair, and no release makes one available
that another callback runs with. -/
theorem leases_exclusive {es : List Event} (hspare : Along (step m) (Spare m) Leases.idle es)
    (hrun : run (step m) Leases.idle es = some l) :
    (∀ i j k k', RunsWith l i k → RunsWith l j k' → sdk.publicKey k = sdk.publicKey k' → i = j) ∧
      Along (step m) (ReleasesItsOwn m) Leases.idle es := by
  have hreached {p : List Event} {l : Leases sdk} (hp : Along (step m) (Spare m) Leases.idle p)
      (hr : run (step m) Leases.idle p = some l) : Exclusive m l :=
    run_invariant (fun _ _ _ h hC hs => exclusive_step h hC hs) exclusive_idle hp hr
  refine ⟨(hreached hspare hrun).alone, along_iff.mpr ?_⟩
  intro p e q t hsplit hprefix j l' he hs i k k' hi hfree
  subst hsplit
  obtain ⟨hp, hq⟩ := along_append hspare
  have hexclusive := exclusive_step (hreached hp hprefix) (hq t hprefix).1 hs
  obtain ⟨hpool, hunused⟩ := firstFree_free hfree
  intro hname
  rcases hexclusive.marked i k hi with hin | hout
  · exact hunused (hname ▸ hin)
  · exact hout (hname ▸ List.mem_map_of_mem hpool)

/-! ### A pool of two channels -/

def namedSdk : Sdk where
  Keypair := String
  rawPublicKey _ := sampleSdk.rawPublicKey true
  publicKey k := k
  sign _ m := sampleSdk.sign true m
  addressFromString _ := none

def holding (l : Leases namedSdk) (j : ℕ) : Option String :=
  match l.clients j with
  | some (.leased k) => some k
  | _ => none

theorem runsWith_of_holding {l : Leases namedSdk} {k : String} (h : holding l j = some k) :
    RunsWith l j k := by
  unfold holding at h
  split at h
  · cases h
    assumption
  · cases h

def twoChannels : Manager namedSdk := ⟨"primary", ["channel-1", "channel-2"]⟩

def leaseOf (j elapsedMs : ℕ) : List Event := [.acquire j 15000, .check j elapsedMs]

/-- Both channels are leased, one is given back, and a third call leases it again. -/
def threeCalls : List Event :=
  leaseOf 0 0 ++ leaseOf 1 0 ++ [.acquire 2 15000, .check 2 100, .release 0, .check 2 200]

def punctual (l : Leases sdk) : Event → Bool
  | .check j elapsedMs =>
    match l.clients j with
    | some (.waiting timeoutMs) => elapsedMs < timeoutMs
    | _ => true
  | _ => true

theorem spare_of_punctual (h : punctual l e = true) : Spare m l e := by
  cases e with
  | check j elapsedMs =>
    intro timeoutMs hj htime
    simp only [punctual, hj, decide_eq_true_eq] at h
    omega
  | _ => trivial

theorem leases_exclusive_punctual : ∃ l, run (step twoChannels) Leases.idle threeCalls = some l ∧
    ∀ i j k k', RunsWith l i k → RunsWith l j k' →
      namedSdk.publicKey k = namedSdk.publicKey k' → i = j := by
  obtain ⟨l, hl⟩ := Option.isSome_iff_exists.mp
    (show (run (step twoChannels) Leases.idle threeCalls).isSome = true by decide +kernel)
  have hspare : Along (step twoChannels) (Spare twoChannels) Leases.idle threeCalls :=
    along_mono (C := fun l e => punctual l e = true) (fun _ _ h => spare_of_punctual h)
      (by decide +kernel)
  exact ⟨l, hl, (leases_exclusive hspare hl).1⟩

def primaryInPool : Manager namedSdk := ⟨"primary", ["primary", "channel"]⟩

/-- Two calls that wait in vain run with the primary key pair; where it is in the pool, one that
waits in vain gives it back while the call that has leased it still runs. -/
theorem fallbacks_collide :
    (∃ l, run (step twoChannels) Leases.idle
        (leaseOf 0 0 ++ leaseOf 1 0 ++ leaseOf 2 15000 ++ leaseOf 3 15000) = some l ∧
      RunsWith l 2 "primary" ∧ RunsWith l 3 "primary") ∧
    ∃ l, run (step primaryInPool) Leases.idle
        (leaseOf 0 0 ++ leaseOf 1 0 ++ leaseOf 2 15000 ++ [.release 2]) = some l ∧
      RunsWith l 0 "primary" ∧ (firstFree primaryInPool l.inUseChannels).map
        (fun k => namedSdk.publicKey k) = some "primary" := by
  constructor
  · have hrun : (run (step twoChannels) Leases.idle
        (leaseOf 0 0 ++ leaseOf 1 0 ++ leaseOf 2 15000 ++ leaseOf 3 15000)).map (fun l =>
          (holding l 2, holding l 3)) = some (some "primary", some "primary") := by decide +kernel
    obtain ⟨l, hl, hpair⟩ := Option.map_eq_some_iff.mp hrun
    obtain ⟨hthird, hfourth⟩ := Prod.mk.inj hpair
    exact ⟨l, hl, runsWith_of_holding hthird, runsWith_of_holding hfourth⟩
  · have hrun : (run (step primaryInPool) Leases.idle
        (leaseOf 0 0 ++ leaseOf 1 0 ++ leaseOf 2 15000 ++ [.release 2])).map (fun l =>
          (holding l 0, (firstFree primaryInPool l.inUseChannels).map
            fun k => namedSdk.publicKey k)) =
        some (some "primary", some "primary") := by decide +kernel
    obtain ⟨l, hl, hpair⟩ := Option.map_eq_some_iff.mp hrun
    obtain ⟨hfirst, hfree⟩ := Prod.mk.inj hpair
    exact ⟨l, hl, runsWith_of_holding hfirst, hfree⟩

end Livora.ChannelLeases
