import Livora.StageViews
import Livora.TransitionRuns
import Mathlib.Data.List.Sort
import Mathlib.Data.PNat.Basic
import Mathlib.Data.Set.Card

/-! `StellarRpcManagerService.executeWithFailover`, any number of calls at once over the records of
the nodes. A call runs from one attempt to the next without a break, and all others go on while an
attempt is in flight. -/

namespace Livora.RpcFailover

open StageViews TransitionRuns

/-! ### Nodes -/

inductive Tier where
  | primary
  | secondary
  | fallback
deriving DecidableEq

inductive Status where
  | healthy
  | unhealthy
deriving DecidableEq

/-- What was counted of a node, kept for statements only. -/
inductive Mark where
  | failed
  | succeeded
  | reinstated
deriving DecidableEq

structure RpcNodeState where
  url : String
  tier : Tier
  consecutiveFailures : ℕ
  status : Status
  cooldownUntil : ℕ
  totalRequests : ℕ
  totalSuccesses : ℕ
  totalFailures : ℕ
  /-- The last mark first. -/
  marks : List Mark
deriving DecidableEq

def maxConsecutiveFailures : ℕ := 3

namespace RpcNodeState

def new (url : String) (tier : Tier) : RpcNodeState := ⟨url, tier, 0, .healthy, 0, 0, 0, 0, []⟩

def restored (node : RpcNodeState) (mark : Mark) : RpcNodeState :=
  { node with
    status := .healthy
    consecutiveFailures := 0
    cooldownUntil := 0
    marks := mark :: node.marks }

def reinstate (now : ℕ+) (node : RpcNodeState) : RpcNodeState :=
  if node.status = .unhealthy ∧ node.cooldownUntil ≤ now then node.restored .reinstated else node

def request (node : RpcNodeState) : RpcNodeState :=
  { node with totalRequests := node.totalRequests + 1 }

def succeed (node : RpcNodeState) : RpcNodeState :=
  { node.restored .succeeded with totalSuccesses := node.totalSuccesses + 1 }

/-- `Date.now() + baseCooldownMs + jitterMs` -/
def calculateCooldownWithJitter (now : ℕ+) (baseCooldownMs : ℕ) (jitterMs : Fin 5000) : ℕ :=
  now + baseCooldownMs + jitterMs

def fail (now : ℕ+) (cooldownMs : ℕ) (jitterMs : Fin 5000) (node : RpcNodeState) : RpcNodeState :=
  let counted := { node with
    totalFailures := node.totalFailures + 1
    consecutiveFailures := node.consecutiveFailures + 1
    marks := .failed :: node.marks }
  if maxConsecutiveFailures ≤ counted.consecutiveFailures then
    { counted with
      status := .unhealthy
      cooldownUntil := calculateCooldownWithJitter now cooldownMs jitterMs }
  else counted

end RpcNodeState

def healthyIndices (nodes : List RpcNodeState) (tier : Tier) : List ℕ :=
  (List.range nodes.length).filter fun i =>
    (nodes[i]?).any fun node => node.tier == tier && node.status == .healthy

def rotated (cursor : ℕ) (indices : List ℕ) : List ℕ :=
  (List.range indices.length).filterMap fun i => indices[(cursor + i) % indices.length]?

def candidateIndices (cursor : ℕ) (nodes : List RpcNodeState) : List ℕ :=
  [Tier.primary, .secondary, .fallback].flatMap fun tier =>
    rotated cursor (healthyIndices nodes tier)

/-- The node whose cooldown ends first, the first of several. -/
def emergencyIndex (nodes : List RpcNodeState) : Option ℕ :=
  ((nodes.zipIdx.insertionSort fun a b => a.1.cooldownUntil ≤ b.1.cooldownUntil).head?).map Prod.snd

/-! ### Calls -/

structure RpcError where
  url : String
  error : String
deriving DecidableEq

inductive Call where
  /-- An attempt on a node is in flight; the other candidates, and the errors so far. -/
  | trying (node : ℕ) (rest : List ℕ) (errors : List RpcError)
  | emergency (node : ℕ) (errors : List RpcError)
  | returned
  | threw (message : String)
deriving DecidableEq

structure Manager where
  nodes : List RpcNodeState
  activeNodeIndex : ℕ
  roundRobinCursor : ℕ
  calls : ℕ → Option Call
  now : ℕ+

inductive Outcome where
  | succeeded
  | failed (message : String)

inductive Event where
  | begin (j : ℕ)
  | settle (j : ℕ) (outcome : Outcome) (jitterMs : Fin 5000)
  | pass (ms : ℕ)

def aggregateMsg (errors : List RpcError) : String :=
  " | ".intercalate (errors.map fun e => "[" ++ e.url ++ "]: " ++ e.error)

def allFailed (errors : List RpcError) : Call :=
  .threw ("Todos los nodos RPC de Soroban fallaron: " ++ aggregateMsg errors)

def errorAt (nodes : List RpcNodeState) (i : ℕ) (message : String) : RpcError :=
  ⟨(nodes[i]?).elim "" RpcNodeState.url, message⟩

namespace Manager

def setCall (m : Manager) (j : ℕ) (call : Call) : Manager :=
  { m with calls := Function.update m.calls j (some call) }

/-- After the candidates, one of the nodes in cooldown, where not every node has failed. -/
def tryEmergency (m : Manager) (j : ℕ) (errors : List RpcError) : Manager :=
  if errors.length < m.nodes.length then
    match emergencyIndex m.nodes with
    | some i => m.setCall j (.emergency i errors)
    | none => m.setCall j (allFailed errors)
  else m.setCall j (allFailed errors)

def proceed (m : Manager) (j : ℕ) (errors : List RpcError) : List ℕ → Manager
  | [] => m.tryEmergency j errors
  | i :: rest =>
    { m with nodes := m.nodes.modify i RpcNodeState.request }.setCall j (.trying i rest errors)

def executeWithFailover (m : Manager) (j : ℕ) : Manager :=
  if m.nodes.length = 0 then m.setCall j (.threw "No hay nodos RPC de Stellar configurados")
  else
    let nodes := m.nodes.map (RpcNodeState.reinstate m.now)
    { m with nodes := nodes }.proceed j [] (candidateIndices m.roundRobinCursor nodes)

def succeed (m : Manager) (j i : ℕ) : Manager :=
  { m with
    nodes := m.nodes.modify i RpcNodeState.succeed
    activeNodeIndex := i
    roundRobinCursor := (m.roundRobinCursor + 1) % 10000 }.setCall j .returned

def fail (cooldownMs : ℕ) (m : Manager) (j i : ℕ) (rest : List ℕ) (errors : List RpcError)
    (message : String) (jitterMs : Fin 5000) : Manager :=
  { m with nodes := m.nodes.modify i (RpcNodeState.fail m.now cooldownMs jitterMs) }.proceed j
    (errors ++ [errorAt m.nodes i message]) rest

/-- What the emergency attempt leads to; it is counted neither as a request nor as a success or
failure. -/
def settleEmergency (m : Manager) (j i : ℕ) (errors : List RpcError) : Outcome → Manager
  | .succeeded =>
    { m with nodes := m.nodes.modify i fun node => node.restored .succeeded }.setCall j .returned
  | .failed message => m.setCall j (allFailed (errors ++ [errorAt m.nodes i message]))

end Manager

def step (cooldownMs : ℕ) (m : Manager) : Event → Option Manager
  | .begin j =>
    match m.calls j with
    | none => some (m.executeWithFailover j)
    | some _ => none
  | .settle j outcome jitterMs =>
    match m.calls j, outcome with
    | some (.trying i _ _), .succeeded => some (m.succeed j i)
    | some (.trying i rest errors), .failed message =>
      some (Manager.fail cooldownMs m j i rest errors message jitterMs)
    | some (.emergency i errors), outcome => some (m.settleEmergency j i errors outcome)
    | _, _ => none
  | .pass ms => some { m with now := ⟨m.now + ms, Nat.add_pos_left m.now.pos ms⟩ }

/-- The manager after `onModuleInit`, and no call. -/
def initial (endpoints : List (String × Tier)) (now : ℕ+) : Manager :=
  ⟨endpoints.map fun e => .new e.1 e.2, 0, 0, fun _ => none, now⟩

/-! ### What a node shows -/

structure Coupled (node : RpcNodeState) : Prop where
  unhealthy : node.status = .unhealthy ↔ maxConsecutiveFailures ≤ node.consecutiveFailures
  cooling : 0 < node.cooldownUntil ↔ node.status = .unhealthy
  /-- The failures that were counted since the last success, or since the node was taken back. -/
  failures : node.consecutiveFailures = (node.marks.takeWhile (· == .failed)).length

variable {node : RpcNodeState} {now : ℕ+} {cooldownMs : ℕ} {jitterMs : Fin 5000}

theorem coupled_healthy (hstatus : node.status = .healthy) (hzero : node.consecutiveFailures = 0)
    (hcool : node.cooldownUntil = 0) (hmarks : 0 = (node.marks.takeWhile (· == .failed)).length) :
    Coupled node := by
  constructor
  · rw [hstatus, hzero]
    decide
  · rw [hstatus, hcool]
    decide
  · rw [hzero]
    exact hmarks

theorem coupled_new (url : String) (tier : Tier) : Coupled (.new url tier) :=
  coupled_healthy rfl rfl rfl rfl

theorem coupled_restored {mark : Mark} (hmark : mark ≠ .failed) : Coupled (node.restored mark) := by
  refine coupled_healthy rfl rfl rfl ?_
  have hstop : (mark == Mark.failed) = false := beq_eq_false_iff_ne.mpr hmark
  change 0 = ((mark :: node.marks).takeWhile (· == .failed)).length
  rw [List.takeWhile_cons, hstop]
  rfl

theorem coupled_reinstate (h : Coupled node) : Coupled (node.reinstate now) := by
  unfold RpcNodeState.reinstate
  split
  · exact coupled_restored (by decide)
  · exact h

theorem coupled_request (h : Coupled node) : Coupled node.request :=
  ⟨h.unhealthy, h.cooling, h.failures⟩

theorem coupled_succeed (node : RpcNodeState) : Coupled node.succeed := by
  have hrestored : Coupled (node.restored .succeeded) := coupled_restored (by decide)
  exact ⟨hrestored.unhealthy, hrestored.cooling, hrestored.failures⟩

theorem coupled_fail (h : Coupled node) : Coupled (node.fail now cooldownMs jitterMs) := by
  have hfailures : node.consecutiveFailures + 1 =
      ((Mark.failed :: node.marks).takeWhile (· == .failed)).length := by
    rw [List.takeWhile_cons, if_pos (by decide), List.length_cons, h.failures]
  unfold RpcNodeState.fail
  dsimp only
  split
  · rename_i hmany
    refine ⟨iff_of_true rfl hmany, iff_of_true ?_ rfl, hfailures⟩
    change 0 < (now : ℕ) + cooldownMs + jitterMs
    have hnow := now.pos
    omega
  · rename_i hfew
    have hhealthy : ¬node.status = .unhealthy := by
      rw [h.unhealthy]
      omega
    exact ⟨iff_of_false hhealthy hfew, h.cooling, hfailures⟩

/-! ### What is in flight -/

namespace Call

def attempted : Call → Option ℕ
  | .trying i _ _ => some i
  | _ => none

def emergencyOn : Call → Option ℕ
  | .emergency i _ => some i
  | _ => none

def onNode (call : Call) : Option ℕ := call.attempted.or call.emergencyOn

end Call

def counted (calls : ℕ → Option Call) (i : ℕ) : Set ℕ := {j | view Call.attempted calls j = some i}

def emergencies (calls : ℕ → Option Call) (i : ℕ) : Set ℕ :=
  {j | view Call.emergencyOn calls j = some i}

def inFlight (calls : ℕ → Option Call) (i : ℕ) : Set ℕ := {j | view Call.onNode calls j = some i}

theorem encard_inFlight (calls : ℕ → Option Call) (i : ℕ) :
    (inFlight calls i).encard = (counted calls i).encard + (emergencies calls i).encard := by
  have hunion : inFlight calls i = counted calls i ∪ emergencies calls i := by
    ext j
    simp only [inFlight, counted, emergencies, Set.mem_ofPred_eq, Set.mem_union, view]
    rcases calls j with _ | _ | _ | _ | _ <;> simp [Call.onNode, Call.attempted, Call.emergencyOn]
  rw [hunion, Set.encard_union_eq]
  refine Set.disjoint_left.mpr fun j hj hj' => ?_
  obtain ⟨call, hcall, hattempted⟩ := view_some.mp hj
  obtain ⟨call', hcall', hemergency⟩ := view_some.mp hj'
  cases hcall.symm.trans hcall'
  cases call with
  | trying node rest errors => cases hemergency
  | emergency node errors => cases hattempted
  | returned => cases hattempted
  | threw message => cases hattempted

/-- The requests of each node are its successes, its failures and the attempts of these calls. -/
def Balanced (nodes : List RpcNodeState) (calls : ℕ → Option Call) : Prop :=
  ∀ i node, nodes[i]? = some node →
    (node.totalRequests : ℕ∞) = node.totalSuccesses + node.totalFailures + (counted calls i).encard

structure Kept (m : Manager) : Prop where
  coupled : ∀ node ∈ m.nodes, Coupled node
  balanced : Balanced m.nodes m.calls

variable {m : Manager} {i j : ℕ} {call : Call} {errors : List RpcError}

theorem encard_counted (calls : ℕ → Option Call) (i : ℕ) :
    (counted (Function.update calls j (some call)) i).encard =
      (counted (Function.update calls j none) i).encard + if call.attempted =
        some i then 1 else 0 :=
  encard_view

theorem encard_counted_of {calls : ℕ → Option Call} (hj : calls j = some call) (i : ℕ) :
    (counted calls i).encard =
      (counted (Function.update calls j none) i).encard + if call.attempted =
        some i then 1 else 0 := by
  rw [← encard_counted, ← hj, Function.update_eq_self]

theorem balanced_modify {nodes : List RpcNodeState} {calls calls' : ℕ → Option Call}
    {f : RpcNodeState → RpcNodeState} (h : Balanced nodes calls)
    (hsame : ∀ x, x ≠ i → (counted calls' x).encard = (counted calls x).encard)
    (hnode : ∀ node, (node.totalRequests : ℕ∞) =
      node.totalSuccesses + node.totalFailures + (counted calls i).encard →
        ((f node).totalRequests : ℕ∞) =
          (f node).totalSuccesses + (f node).totalFailures + (counted calls' i).encard) :
    Balanced (nodes.modify i f) calls' := by
  intro x node hx
  rw [List.getElem?_modify] at hx
  obtain ⟨old, hold, rfl⟩ := Option.map_eq_some_iff.mp hx
  by_cases hix : i = x
  · subst hix
    rw [if_pos rfl]
    exact hnode old (h i old hold)
  · rw [if_neg hix, hsame x (Ne.symm hix)]
    exact h x old hold

theorem mem_modify {nodes : List RpcNodeState} {f : RpcNodeState → RpcNodeState}
    (hf : ∀ node, Coupled node → Coupled (f node)) (h : ∀ node ∈ nodes, Coupled node) :
    ∀ node ∈ nodes.modify i f, Coupled node := by
  intro node hnode
  obtain ⟨x, hx⟩ := List.getElem?_of_mem hnode
  rw [List.getElem?_modify] at hx
  obtain ⟨old, hold, rfl⟩ := Option.map_eq_some_iff.mp hx
  have hcoupled := h old (List.mem_of_getElem? hold)
  split
  · exact hf old hcoupled
  · exact hcoupled

def Manager.without (m : Manager) (j : ℕ) : Manager :=
  { m with calls := Function.update m.calls j none }

theorem kept_setCall (h : Kept (m.without j)) (hcall : call.attempted = none) :
    Kept (m.setCall j call) where
  coupled := h.coupled
  balanced i node hnode := by
    change _ = _ + _ + (counted (Function.update m.calls j (some call)) i).encard
    rw [encard_counted, hcall, if_neg (fun he => by cases he), add_zero]
    exact h.balanced i node hnode

theorem kept_proceed (h : Kept (m.without j)) (rest : List ℕ) : Kept (m.proceed j errors rest) := by
  cases rest with
  | nil =>
    change Kept (m.tryEmergency j errors)
    unfold Manager.tryEmergency
    split
    · split
      · exact kept_setCall h rfl
      · exact kept_setCall h rfl
    · exact kept_setCall h rfl
  | cons i rest =>
    have hat : (Call.trying i rest errors).attempted = some i := rfl
    refine ⟨mem_modify (fun _ => coupled_request) h.coupled,
      balanced_modify h.balanced (fun x hx => ?_)
      fun node hnode => ?_⟩
    · change (counted (Function.update m.calls j (some _)) x).encard = _
      rw [encard_counted, hat, if_neg (fun he => hx (Option.some.inj he).symm), add_zero]
      rfl
    · change ((node.totalRequests + 1 : ℕ) : ℕ∞) = _ + _ +
          (counted (Function.update m.calls j (some _)) i).encard
      rw [encard_counted, hat, if_pos rfl, Nat.cast_add, hnode, ← add_assoc]
      rfl

theorem kept_begin (h : Kept m) (hj : m.calls j = none) : Kept (m.executeWithFailover j) := by
  have hsame : Function.update m.calls j none = m.calls := by rw [← hj, Function.update_eq_self]
  unfold Manager.executeWithFailover
  split
  · refine kept_setCall ⟨h.coupled, ?_⟩ rfl
    change Balanced m.nodes (Function.update m.calls j none)
    rw [hsame]
    exact h.balanced
  · refine kept_proceed ⟨fun node hnode => ?_, fun i node hnode => ?_⟩ _
    · obtain ⟨old, hold, rfl⟩ := List.mem_map.mp hnode
      exact coupled_reinstate (h.coupled old hold)
    · change (m.nodes.map (RpcNodeState.reinstate m.now))[i]? = some node at hnode
      rw [List.getElem?_map] at hnode
      obtain ⟨old, hold, rfl⟩ := Option.map_eq_some_iff.mp hnode
      change _ = _ + _ + (counted (Function.update m.calls j none) i).encard
      rw [hsame]
      have hbalanced := h.balanced i old hold
      unfold RpcNodeState.reinstate
      split
      · exact hbalanced
      · exact hbalanced

theorem balanced_settle {rest : List ℕ} (h : Kept m) (hj : m.calls j = some (.trying i rest errors))
    {f : RpcNodeState → RpcNodeState}
    (hf : ∀ node, (f node).totalRequests = node.totalRequests ∧
      (f node).totalSuccesses + (f node).totalFailures = node.totalSuccesses +
        node.totalFailures + 1) :
    Balanced (m.nodes.modify i f) (Function.update m.calls j none) := by
  have hat : (Call.trying i rest errors).attempted = some i := rfl
  refine balanced_modify h.balanced (fun x hx => ?_) fun node hnode => ?_
  · rw [encard_counted_of hj, hat, if_neg (fun he => hx (Option.some.inj he).symm), add_zero]
  · obtain ⟨hrequests, hsum⟩ := hf node
    rw [encard_counted_of hj, hat, if_pos rfl] at hnode
    have hsum' : ((f node).totalSuccesses : ℕ∞) + (f node).totalFailures =
        node.totalSuccesses + node.totalFailures + 1 := by
      exact_mod_cast hsum
    rw [hrequests, hsum', hnode]
    exact (add_assoc _ _ _).symm.trans (add_right_comm _ _ _)

theorem kept_succeed {rest : List ℕ} (h : Kept m) (hj : m.calls j = some (.trying i rest errors)) :
    Kept (m.succeed j i) := by
  refine kept_setCall ⟨mem_modify (fun node _ => coupled_succeed node) h.coupled,
    balanced_settle h hj fun node => ⟨rfl, ?_⟩⟩ rfl
  exact Nat.add_right_comm _ _ _

theorem kept_fail {rest : List ℕ} (h : Kept m) (hj : m.calls j = some (.trying i rest errors))
    (message : String) : Kept (Manager.fail cooldownMs m j i rest errors message jitterMs) := by
  have hfailed : Kept ({ m with nodes := m.nodes.modify i (RpcNodeState.fail m.now cooldownMs
      jitterMs) }.without j) := by
    refine ⟨mem_modify (fun _ => coupled_fail) h.coupled, balanced_settle h hj fun node => ?_⟩
    unfold RpcNodeState.fail
    dsimp only
    split
    · exact ⟨rfl, rfl⟩
    · exact ⟨rfl, rfl⟩
  exact kept_proceed hfailed rest

theorem kept_settleEmergency (h : Kept m) (hj : m.calls j = some (.emergency i errors))
    (outcome : Outcome) : Kept (m.settleEmergency j i errors outcome) := by
  have hat : (Call.emergency i errors).attempted = none := rfl
  have hsame (x : ℕ) : (counted (Function.update m.calls j none) x).encard =
      (counted m.calls x).encard := by
    rw [encard_counted_of hj, hat, if_neg (fun he => by cases he), add_zero]
  cases outcome with
  | succeeded =>
    refine kept_setCall ⟨mem_modify (fun node _ => coupled_restored (by decide)) h.coupled,
      balanced_modify h.balanced (fun x _ => hsame x) fun node hnode => ?_⟩ rfl
    change (node.totalRequests : ℕ∞) = node.totalSuccesses + node.totalFailures +
      (counted (Function.update m.calls j none) i).encard
    rw [hsame]
    exact hnode
  | failed message =>
    refine kept_setCall ⟨h.coupled, fun x node hnode => ?_⟩ rfl
    change _ = _ + _ + (counted (Function.update m.calls j none) x).encard
    rw [hsame]
    exact h.balanced x node hnode

theorem step_kept {m' : Manager} {e : Event} (h : Kept m) (hstep : step cooldownMs m e = some m') :
    Kept m' := by
  cases e with
  | begin j =>
    unfold step at hstep
    cases hj : m.calls j with
    | none =>
      simp only [hj] at hstep
      cases hstep
      exact kept_begin h hj
    | some call =>
      simp only [hj] at hstep
      cases hstep
  | settle j outcome jitterMs =>
    unfold step at hstep
    cases hj : m.calls j with
    | none =>
      simp only [hj] at hstep
      cases hstep
    | some call =>
      cases call with
      | trying i rest errors =>
        cases outcome with
        | succeeded =>
          simp only [hj] at hstep
          cases hstep
          exact kept_succeed h hj
        | failed message =>
          simp only [hj] at hstep
          cases hstep
          exact kept_fail h hj message
      | emergency i errors =>
        simp only [hj] at hstep
        cases hstep
        exact kept_settleEmergency h hj outcome
      | returned =>
        simp only [hj] at hstep
        cases hstep
      | threw message =>
        simp only [hj] at hstep
        cases hstep
  | pass ms =>
    cases hstep
    exact ⟨h.coupled, h.balanced⟩

theorem kept_initial (endpoints : List (String × Tier)) (now : ℕ+) :
    Kept (initial endpoints now) := by
  constructor
  · intro node hnode
    obtain ⟨e, -, rfl⟩ := List.mem_map.mp hnode
    exact coupled_new _ _
  · intro i node hnode
    have hmap : (endpoints.map fun e => RpcNodeState.new e.1 e.2)[i]? = some node := hnode
    rw [List.getElem?_map] at hmap
    obtain ⟨e, -, rfl⟩ := Option.map_eq_some_iff.mp hmap
    have hnone : counted (initial endpoints now).calls i = ∅ := by
      ext j
      simp [counted, view, initial]
    rw [hnone, Set.encard_empty]
    rfl

/-- All that the fields of a node are to say of each other, and of the attempts in flight on it. -/
structure Consistent (m : Manager) (i : ℕ) (node : RpcNodeState) : Prop where
  coupled : Coupled node
  requests : (node.totalRequests : ℕ∞) =
    node.totalSuccesses + node.totalFailures + (inFlight m.calls i).encard

theorem inconsistent_of_emergency (h : Kept m) (hnode : m.nodes[i]? = some node)
    (hj : m.calls j = some (.emergency i errors)) : ¬Consistent m i node := by
  intro hconsistent
  have hmem : j ∈ emergencies m.calls i := view_some.mpr ⟨_, hj, rfl⟩
  have hone : 1 ≤ (emergencies m.calls i).encard := Set.one_le_encard_iff_nonempty.mpr ⟨j, hmem⟩
  have hrequests := hconsistent.requests
  rw [encard_inFlight, ← add_assoc, ← h.balanced i node hnode] at hrequests
  have hmore : (node.totalRequests : ℕ∞) + 1 ≤ node.totalRequests :=
    (add_le_add_right hone _).trans hrequests.ge
  exact absurd (Nat.cast_le.mp (by exact_mod_cast hmore)) (Nat.not_succ_le_self node.totalRequests)

/-- In every run the status of each node, its failures in a row and its cooldown go together, and
its requests are its successes, its failures and the attempts in flight exactly while no emergency
attempt on it is. -/
theorem consistent_iff {endpoints : List (String × Tier)} {es : List Event}
    (hrun : run (step cooldownMs) (initial endpoints now) es = some m)
    (hnode : m.nodes[i]? = some node) :
    Coupled node ∧ (Consistent m i node ↔ ∀ j errors, m.calls j ≠ some (.emergency i errors)) := by
  have hkept : Kept m :=
    run_preserves (fun _ _ _ h hstep => step_kept h hstep) (kept_initial _ _) hrun
  have hcoupled := hkept.coupled node (List.mem_of_getElem? hnode)
  have hbalanced := hkept.balanced i node hnode
  refine ⟨hcoupled, fun h j errors hj => ?_, fun hnone => ⟨hcoupled, ?_⟩⟩
  · exact inconsistent_of_emergency hkept hnode hj h
  · have hempty : emergencies m.calls i = ∅ := by
      ext j
      simp only [emergencies, Set.mem_ofPred_eq, Set.mem_empty_iff_false, iff_false]
      intro hj
      obtain ⟨call, hcall, hon⟩ := view_some.mp hj
      cases call with
      | emergency node errors =>
        cases hon
        exact hnone j errors hcall
      | trying node rest errors => cases hon
      | returned => cases hon
      | threw message => cases hon
    rw [encard_inFlight, hempty, Set.encard_empty, add_zero]
    exact hbalanced

/-! ### One node in its cooldown -/

def oneEndpoint : Manager := initial [("https://soroban-testnet.stellar.org", .primary)] 1

def failing (j : ℕ) : List Event := [.begin j, .settle j (.failed "timeout") 0]

theorem consistent_iff_failing : ∃ m node, run (step 60000) oneEndpoint (failing 0) = some m ∧
    m.nodes[0]? = some node ∧
      Coupled node ∧
        (Consistent m 0 node ↔ ∀ j errors, m.calls j ≠ some (.emergency 0 errors)) := by
  have hrun : (run (step 60000) oneEndpoint (failing 0)).bind (fun m => m.nodes[0]?) ≠ none := by
    decide +kernel
  obtain ⟨node, hnode⟩ := Option.ne_none_iff_exists'.mp hrun
  obtain ⟨m, hm, hnode⟩ := Option.bind_eq_some_iff.mp hnode
  exact ⟨m, node, hm, hnode, consistent_iff hm hnode⟩

/-- Three calls that fail, and one that finds the node in its cooldown. -/
def fourth : List Event := failing 0 ++ failing 1 ++ failing 2 ++ [.begin 3]

def totals (node : RpcNodeState) : ℕ × ℕ × ℕ :=
  (node.totalRequests, node.totalSuccesses, node.totalFailures)

/-- While the emergency attempt is in flight the node has as many requests as failures. -/
theorem emergency_uncounted : ∃ m node, run (step 60000) oneEndpoint fourth = some m ∧
    m.nodes[0]? = some node ∧ totals node = (3, 0, 3) ∧ m.calls 3 = some (.emergency 0 []) ∧
      ¬Consistent m 0 node := by
  have hrun : (run (step 60000) oneEndpoint fourth).map
      (fun m => (m.nodes[0]?.map totals, m.calls 3)) =
        some (some (3, 0, 3), some (.emergency 0 [])) := by
    decide +kernel
  obtain ⟨m, hm, hseen⟩ := Option.map_eq_some_iff.mp hrun
  obtain ⟨htotals, hcall⟩ := Prod.mk.inj hseen
  obtain ⟨node, hnode, htotals⟩ := Option.map_eq_some_iff.mp htotals
  have hkept : Kept m :=
    run_preserves (fun _ _ _ h hstep => step_kept h hstep) (kept_initial _ _) hm
  exact ⟨m, node, hm, hnode, htotals, hcall, inconsistent_of_emergency hkept hnode hcall⟩

end Livora.RpcFailover
