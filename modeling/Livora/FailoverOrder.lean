import Livora.RpcFailover
import Mathlib.Data.List.Rotate

/-! The attempts of one call of `executeWithFailover` that the circuit breaker runs, among any
number of others. Its candidates are settled when it begins: the nodes that are healthy then. It
goes through them until one answers, and after the last it makes one more attempt where not every
node was a candidate. -/

namespace Livora.FailoverOrder

open RpcFailover TransitionRuns

/-! ### The candidates -/

/-- The nodes once a call has taken back those whose cooldown is over. -/
def startNodes (m : Manager) : List RpcNodeState := m.nodes.map (RpcNodeState.reinstate m.now)

/-- The nodes that a call which begins now is to try, in this order. -/
def plan (m : Manager) : List ℕ := candidateIndices m.roundRobinCursor (startNodes m)

theorem filterMap_getElem? {α : Type*} (as : List α) :
    ((List.range as.length).filterMap fun i => as[i]?) = as := by
  induction as with
  | nil => rfl
  | cons a as ih =>
    rw [List.length_cons, List.range_succ_eq_map, List.filterMap_cons, List.filterMap_map]
    exact congrArg (List.cons a) ih

theorem rotated_eq (cursor : ℕ) (indices : List ℕ) :
    rotated cursor indices = indices.rotate cursor := by
  have hlength : (indices.rotate cursor).length = indices.length := List.length_rotate _ _
  have hentry : ∀ i ∈ List.range indices.length,
      indices[(cursor + i) % indices.length]? = (indices.rotate cursor)[i]? := by
    intro i hi
    rw [List.getElem?_rotate (List.mem_range.mp hi), Nat.add_comm]
  unfold rotated
  rw [List.filterMap_congr hentry, ← hlength]
  exact filterMap_getElem? _

theorem mem_rotated {cursor i : ℕ} {indices : List ℕ} :
    i ∈ rotated cursor indices ↔ i ∈ indices := by
  rw [rotated_eq, List.mem_rotate]

variable {nodes : List RpcNodeState} {i : ℕ} {tier : Tier}

theorem mem_healthyIndices : i ∈ healthyIndices nodes tier ↔
    ∃ node, nodes[i]? = some node ∧ node.tier = tier ∧ node.status = .healthy := by
  simp only [healthyIndices, List.mem_filter, List.mem_range, Option.any_eq_true, Bool.and_eq_true,
    beq_iff_eq]
  constructor
  · rintro ⟨-, h⟩
    exact h
  · rintro ⟨node, hnode, h⟩
    exact ⟨(List.getElem?_eq_some_iff.mp hnode).1, node, hnode, h⟩

theorem nodup_healthyIndices : (healthyIndices nodes tier).Nodup := List.nodup_range.filter _

theorem candidateIndices_eq (cursor : ℕ) : candidateIndices cursor nodes =
    [Tier.primary, .secondary, .fallback].flatMap fun tier =>
      (healthyIndices nodes tier).rotate cursor := by
  unfold candidateIndices
  simp only [rotated_eq]

theorem mem_candidateIndices {cursor : ℕ} : i ∈ candidateIndices cursor nodes ↔
    ∃ node, nodes[i]? = some node ∧ node.status = .healthy := by
  simp only [candidateIndices, List.mem_flatMap, mem_rotated, mem_healthyIndices]
  constructor
  · rintro ⟨tier, -, node, hnode, -, hstatus⟩
    exact ⟨node, hnode, hstatus⟩
  · rintro ⟨node, hnode, hstatus⟩
    refine ⟨node.tier, ?_, node, hnode, rfl, hstatus⟩
    cases node.tier <;> decide

theorem nodup_candidateIndices (cursor : ℕ) : (candidateIndices cursor nodes).Nodup := by
  have hdisjoint : ∀ a b : Tier, a ≠ b →
      List.Disjoint (rotated cursor (healthyIndices nodes a))
        (rotated cursor (healthyIndices nodes b)) := by
    intro a b hab i ha hb
    obtain ⟨node, hnode, rfl, -⟩ := mem_healthyIndices.mp (mem_rotated.mp ha)
    obtain ⟨node', hnode', rfl, -⟩ := mem_healthyIndices.mp (mem_rotated.mp hb)
    cases hnode.symm.trans hnode'
    exact hab rfl
  refine List.nodup_flatMap.mpr ⟨fun tier _ => ?_, ?_⟩
  · rw [rotated_eq]
    exact List.nodup_rotate.mpr nodup_healthyIndices
  · refine List.Nodup.pairwise_of_forall_ne (by decide) fun a _ b _ hab => hdisjoint a b hab

theorem length_candidateIndices_le (cursor : ℕ) :
    (candidateIndices cursor nodes).length ≤ nodes.length := by
  have hsub : candidateIndices cursor nodes ⊆ List.range nodes.length := fun i hi => by
    obtain ⟨node, hnode, -⟩ := mem_candidateIndices.mp hi
    exact List.mem_range.mpr (List.getElem?_eq_some_iff.mp hnode).1
  simpa using ((nodup_candidateIndices cursor).subperm hsub).length_le

theorem length_plan_le (m : Manager) : (plan m).length ≤ m.nodes.length := by
  refine (length_candidateIndices_le _).trans (Nat.le_of_eq ?_)
  exact List.length_map _

/-! ### The attempts -/

structure Attempt where
  node : ℕ
  emergency : Bool
  succeeded : Bool
deriving DecidableEq

def succeeded : Outcome → Bool
  | .succeeded => true
  | .failed _ => false

def attemptOf (j : ℕ) (m : Manager) : Event → Option Attempt
  | .settle k outcome _ =>
    if k = j then
      match m.calls j with
      | some (.trying i _ _) => some ⟨i, false, succeeded outcome⟩
      | some (.emergency i _) => some ⟨i, true, succeeded outcome⟩
      | _ => none
    else none
  | _ => none

def attempts (cooldownMs j : ℕ) : Manager → List Event → List Attempt :=
  trace (step cooldownMs) (attemptOf j)

def failures (indices : List ℕ) : List Attempt := indices.map fun i => ⟨i, false, false⟩

/-- How a call stands that had these candidates in a pool of `n` nodes and has made these
attempts. -/
inductive Standing (candidates : List ℕ) (n : ℕ) : List Attempt → Call → Prop
  | trying (done : List ℕ) (i : ℕ) (rest : List ℕ) (errors : List RpcError)
      (hplan : candidates = done ++ i :: rest) (herrors : errors.length = done.length) :
      Standing candidates n (failures done) (.trying i rest errors)
  | emergency (i : ℕ) (errors : List RpcError) (hfew : candidates.length < n) (hi : i < n) :
      Standing candidates n (failures candidates) (.emergency i errors)
  | returned (done : List ℕ) (i : ℕ) (rest : List ℕ) (hplan : candidates = done ++ i :: rest) :
      Standing candidates n (failures done ++ [⟨i, false, true⟩]) .returned
  | rescued (i : ℕ) (hfew : candidates.length < n) (hi : i < n) :
      Standing candidates n (failures candidates ++ [⟨i, true, true⟩]) .returned
  | exhausted (message : String) (hall : candidates.length = n) :
      Standing candidates n (failures candidates) (.threw message)
  | lost (i : ℕ) (message : String) (hfew : candidates.length < n) (hi : i < n) :
      Standing candidates n (failures candidates ++ [⟨i, true, false⟩]) (.threw message)

/-! ### One call among the others -/

variable {m m' : Manager} {call : Call} {cooldownMs j k : ℕ} {errors : List RpcError}
    {rest : List ℕ}
  {e : Event}

theorem calls_setCall_self (call : Call) : (m.setCall j call).calls j = some call :=
  Function.update_self _ _ _

theorem calls_setCall_of_ne (h : j ≠ k) (call : Call) : (m.setCall k call).calls j = m.calls j :=
  Function.update_of_ne h _ _

theorem emergencyIndex_lt (h : emergencyIndex nodes = some i) : i < nodes.length := by
  obtain ⟨⟨node, k⟩, hhead, rfl⟩ := Option.map_eq_some_iff.mp h
  have hmem : (node, k) ∈ nodes.zipIdx :=
    (List.perm_insertionSort _ _).mem_iff.mp (List.mem_of_mem_head? hhead)
  have hget := List.mem_zipIdx' hmem
  exact hget.1

theorem emergencyIndex_isSome (h : nodes ≠ []) : ∃ i, emergencyIndex nodes = some i := by
  unfold emergencyIndex
  cases hsort : nodes.zipIdx.insertionSort fun a b => a.1.cooldownUntil ≤ b.1.cooldownUntil with
  | nil =>
    have hlength := (List.perm_insertionSort
      (fun a b : RpcNodeState × ℕ => a.1.cooldownUntil ≤ b.1.cooldownUntil) nodes.zipIdx).length_eq
    rw [hsort, List.length_nil, List.length_zipIdx] at hlength
    exact absurd (List.eq_nil_of_length_eq_zero hlength.symm) h
  | cons a as => exact ⟨a.2, rfl⟩

theorem nodes_tryEmergency : (m.tryEmergency j errors).nodes = m.nodes := by
  unfold Manager.tryEmergency
  split
  · split <;> rfl
  · rfl

theorem length_proceed : (m.proceed j errors rest).nodes.length = m.nodes.length := by
  cases rest with
  | nil => exact congrArg List.length nodes_tryEmergency
  | cons i rest => exact List.length_modify _ _ _

theorem calls_tryEmergency_of_ne (h : j ≠ k) : (m.tryEmergency k errors).calls j = m.calls j := by
  unfold Manager.tryEmergency
  split
  · split
    · exact calls_setCall_of_ne h _
    · exact calls_setCall_of_ne h _
  · exact calls_setCall_of_ne h _

theorem calls_proceed_of_ne (h : j ≠ k) : (m.proceed k errors rest).calls j = m.calls j := by
  cases rest with
  | nil => exact calls_tryEmergency_of_ne h
  | cons i rest => exact calls_setCall_of_ne h _

theorem standing_proceed {done candidates : List ℕ} (hplan : candidates = done ++ rest)
    (herrors : errors.length = done.length) (hle : candidates.length ≤ m.nodes.length) :
    ∃ call, (m.proceed j errors rest).calls j = some call ∧
      Standing candidates m.nodes.length (failures done) call := by
  cases rest with
  | cons i rest => exact ⟨_, calls_setCall_self _, .trying done i rest errors hplan herrors⟩
  | nil =>
    rw [List.append_nil] at hplan
    subst hplan
    change ∃ call, (m.tryEmergency j errors).calls j = some call ∧ _
    unfold Manager.tryEmergency
    split
    · rename_i hlt
      rw [herrors] at hlt
      have hnodes : m.nodes ≠ [] := fun hnil => by
        rw [hnil] at hlt
        exact Nat.not_lt_zero _ hlt
      obtain ⟨i, hi⟩ := emergencyIndex_isSome hnodes
      rw [hi]
      exact ⟨_, calls_setCall_self _, .emergency i errors hlt (emergencyIndex_lt hi)⟩
    · rename_i hge
      rw [herrors] at hge
      exact ⟨_, calls_setCall_self _, .exhausted _ (Nat.le_antisymm hle (Nat.le_of_not_lt hge))⟩

theorem standing_settle {candidates : List ℕ} {past : List Attempt} {call : Call}
    {outcome : Outcome} {jitterMs : Fin 5000} (h : Standing candidates m.nodes.length past call)
    (hj : m.calls j = some call) (hle : candidates.length ≤ m.nodes.length)
    (hstep : step cooldownMs m (.settle j outcome jitterMs) = some m') :
    ∃ call', m'.calls j = some call' ∧ Standing candidates m.nodes.length
      (past ++ (attemptOf j m (.settle j outcome jitterMs)).toList) call' := by
  unfold step at hstep
  simp only [attemptOf, if_pos, hj] at hstep ⊢
  cases h with
  | trying done i rest errors hplan herrors =>
    cases outcome with
    | succeeded =>
      cases hstep
      exact ⟨_, calls_setCall_self _, .returned done i rest hplan⟩
    | failed message =>
      cases hstep
      have hplan' : candidates = (done ++ [i]) ++ rest := by rw [hplan, List.append_assoc]; rfl
      have herrors' : (errors ++ [errorAt m.nodes i message]).length = (done ++ [i]).length := by
        simp [herrors]
      obtain ⟨call, hcall, hstanding⟩ := standing_proceed (m := { m with
        nodes := m.nodes.modify i (RpcNodeState.fail m.now cooldownMs jitterMs) })
          (j := j) hplan' herrors'
        (by simpa using hle)
      refine ⟨call, hcall, ?_⟩
      simpa [failures, succeeded] using hstanding
  | emergency i errors hfew hi =>
    cases hstep
    cases outcome with
    | succeeded => exact ⟨_, calls_setCall_self _, .rescued i hfew hi⟩
    | failed message => exact ⟨_, calls_setCall_self _, .lost i _ hfew hi⟩
  | returned done i rest hplan => cases hstep
  | rescued i hfew hi => cases hstep
  | exhausted message hall => cases hstep
  | lost i message hfew hi => cases hstep

theorem step_begin (hstep : step cooldownMs m (.begin k) = some m') :
    m.calls k = none ∧ m' = m.executeWithFailover k := by
  cases hk : m.calls k with
  | none =>
    simp only [step, hk, Option.some.injEq] at hstep
    exact ⟨rfl, hstep.symm⟩
  | some call => simp [step, hk] at hstep

theorem step_settle {outcome : Outcome} {jitterMs : Fin 5000}
    (hstep : step cooldownMs m (.settle k outcome jitterMs) = some m') :
    (∃ i, m' = m.succeed k i) ∨
    (∃ i rest errors message, m' = Manager.fail cooldownMs m k i rest errors message jitterMs) ∨
    ∃ i errors, m' = m.settleEmergency k i errors outcome := by
  cases hk : m.calls k with
  | none => simp [step, hk] at hstep
  | some call =>
    cases call with
    | trying i rest errors =>
      cases outcome with
      | succeeded =>
        simp only [step, hk, Option.some.injEq] at hstep
        exact .inl ⟨i, hstep.symm⟩
      | failed message =>
        simp only [step, hk, Option.some.injEq] at hstep
        exact .inr (.inl ⟨i, rest, errors, message, hstep.symm⟩)
    | emergency i errors =>
      simp only [step, hk, Option.some.injEq] at hstep
      exact .inr (.inr ⟨i, errors, hstep.symm⟩)
    | returned => simp [step, hk] at hstep
    | threw message => simp [step, hk] at hstep

theorem calls_step_of_other (hj : m.calls j = some call)
    (hother : ∀ outcome jitterMs, e ≠ .settle j outcome jitterMs)
    (hstep : step cooldownMs m e = some m') : m'.calls j = some call := by
  cases e with
  | begin k =>
    obtain ⟨hk, rfl⟩ := step_begin hstep
    have hjk : j ≠ k := fun h => by
      rw [← h, hj] at hk
      cases hk
    rw [← hj]
    unfold Manager.executeWithFailover
    split
    · exact calls_setCall_of_ne hjk _
    · exact calls_proceed_of_ne hjk
  | settle k outcome jitterMs =>
    have hjk : j ≠ k := fun h => hother outcome jitterMs (h ▸ rfl)
    rw [← hj]
    rcases step_settle hstep with ⟨i, rfl⟩ | ⟨i, rest, errors, message, rfl⟩ | ⟨i, errors, rfl⟩
    · exact calls_setCall_of_ne hjk _
    · exact calls_proceed_of_ne hjk
    · cases outcome with
      | succeeded => exact calls_setCall_of_ne hjk _
      | failed message => exact calls_setCall_of_ne hjk _
  | pass ms =>
    cases hstep
    exact hj

theorem length_step (hstep : step cooldownMs m e = some m') : m'.nodes.length = m.nodes.length := by
  cases e with
  | begin k =>
    obtain ⟨-, rfl⟩ := step_begin hstep
    unfold Manager.executeWithFailover
    split
    · rfl
    · rw [length_proceed]
      exact List.length_map _
  | settle k outcome jitterMs =>
    rcases step_settle hstep with ⟨i, rfl⟩ | ⟨i, rest, errors, message, rfl⟩ | ⟨i, errors, rfl⟩
    · exact List.length_modify _ _ _
    · exact length_proceed.trans (List.length_modify _ _ _)
    · cases outcome with
      | succeeded => exact List.length_modify _ _ _
      | failed message => rfl
  | pass ms =>
    cases hstep
    rfl

/-- The call with its attempts so far, in a pool of `n` nodes. -/
def Proceeding (candidates : List ℕ) (n j : ℕ) (past : List Attempt) (m : Manager) : Prop :=
  m.nodes.length = n ∧ ∃ call, m.calls j = some call ∧ Standing candidates n past call

theorem proceeding_step {candidates : List ℕ} {n : ℕ} {past : List Attempt}
    (hle : candidates.length ≤ n)
    (h : Proceeding candidates n j past m) (hstep : step cooldownMs m e = some m') :
    Proceeding candidates n j (past ++ (attemptOf j m e).toList) m' := by
  obtain ⟨rfl, call, hj, hstanding⟩ := h
  refine ⟨length_step hstep, ?_⟩
  by_cases hsettle : ∃ outcome jitterMs, e = .settle j outcome jitterMs
  · obtain ⟨outcome, jitterMs, rfl⟩ := hsettle
    exact standing_settle hstanding hj hle hstep
  · have hother : ∀ outcome jitterMs, e ≠ .settle j outcome jitterMs :=
      fun outcome jitterMs h => hsettle ⟨outcome, jitterMs, h⟩
    have hnone : attemptOf j m e = none := by
      cases e with
      | settle k outcome jitterMs =>
        exact if_neg fun h : k = j => hother outcome jitterMs (h ▸ rfl)
      | begin k => rfl
      | pass ms => rfl
    rw [hnone, Option.toList_none, List.append_nil]
    exact ⟨call, calls_step_of_other hj hother hstep, hstanding⟩

theorem proceeding_begin (hstep : step cooldownMs m (.begin j) = some m') :
    Proceeding (plan m) m.nodes.length j [] m' := by
  refine ⟨length_step hstep, ?_⟩
  obtain ⟨-, rfl⟩ := step_begin hstep
  unfold Manager.executeWithFailover
  split
  · rename_i hempty
    have hplan : plan m = [] :=
      List.eq_nil_of_length_eq_zero (Nat.le_zero.mp ((length_plan_le m).trans hempty.le))
    rw [hplan]
    exact ⟨_, calls_setCall_self _, .exhausted _ hempty.symm⟩
  · have hlength : (startNodes m).length = m.nodes.length := List.length_map _
    have hplan : plan m = [] ++ plan m := rfl
    have herrors : ([] : List RpcError).length = ([] : List ℕ).length := rfl
    have hstanding :=
      standing_proceed (m := { m with nodes := startNodes m }) (j := j) hplan herrors
      (length_candidateIndices_le _)
    rw [hlength] at hstanding
    exact hstanding

/-- A call tries the nodes that are healthy when it begins, each once, the primary ones first and
the fallbacks last, those of a tier from the cursor on and round, until one answers, and returns
then. It throws where there is no node, or after all of them have failed and, where other nodes are
configured, a last attempt on some node has failed too. -/
theorem failover_in_order {es : List Event}
    (hrun : run (step cooldownMs) m (.begin j :: es) = some m') :
    plan m = ([Tier.primary, .secondary, .fallback].flatMap fun tier =>
      (healthyIndices (startNodes m) tier).rotate m.roundRobinCursor) ∧
    (plan m).Nodup ∧
    (∀ i, i ∈ plan m ↔ ∃ node, (startNodes m)[i]? = some node ∧ node.status = .healthy) ∧
    ∃ call, m'.calls j = some call ∧
      Standing (plan m) m.nodes.length (attempts cooldownMs j m (.begin j :: es)) call := by
  refine ⟨candidateIndices_eq _, nodup_candidateIndices _, fun i => mem_candidateIndices, ?_⟩
  obtain ⟨m₁, hbegin, hrest⟩ := run_cons.mp hrun
  have hproceeding : Proceeding (plan m) m.nodes.length j
    ([] ++ trace (step cooldownMs) (attemptOf j) m₁ es) m' :=
    run_history (fun past m e m' h hstep => proceeding_step (length_plan_le _) h hstep)
      (proceeding_begin hbegin) hrest
  rw [attempts, trace_cons hbegin]
  exact hproceeding.2

/-! ### A pool of which one node is healthy -/

def cooling (cooldownUntil : ℕ) (url : String) (tier : Tier) : RpcNodeState :=
  ⟨url, tier, 3, .unhealthy, cooldownUntil, 3, 0, 3, [.failed, .failed, .failed]⟩

def onePrimary : Manager := { oneEndpoint with
  nodes := [.new "https://soroban-testnet.stellar.org" .primary,
    cooling 60001 "https://rpc.publicnode.org/soroban/testnet" .secondary,
    cooling 60002 "https://testnet.sorobanrpc.com" .fallback]
  roundRobinCursor := 7 }

def twiceFailing : List Event := failing 0 ++ (failing 0).drop 1

theorem failover_in_order_twice : ∃ m', run (step 60000) onePrimary twiceFailing = some m' ∧
    ∃ call, m'.calls 0 = some call ∧
      Standing (plan onePrimary) 3 (attempts 60000 0 onePrimary twiceFailing) call := by
  have hrun : (run (step 60000) onePrimary twiceFailing).isSome = true := by decide +kernel
  obtain ⟨m', hm'⟩ := Option.isSome_iff_exists.mp hrun
  exact ⟨m', hm', (failover_in_order hm').2.2.2⟩

/-- Every configured node is tried before the call throws. -/
def Exhaustive (n : ℕ) (past : List Attempt) : Call → Prop
  | .threw _ => ∀ i < n, ∃ a ∈ past, a.node = i
  | _ => True

/-- The last resort spares the nodes that have failed in this call, where there is another one. -/
def Spares (n : ℕ) (past : List Attempt) : Prop :=
  ∀ a ∈ past, a.emergency = true → (∃ b ∈ past, b.emergency = false ∧ b.node = a.node) →
    ∀ i < n, ∃ b ∈ past, b.emergency = false ∧ b.node = i

/-- The call throws without having tried the two nodes in their cooldown: its last attempt goes to
the node that has just failed. -/
theorem throws_with_nodes_untried :
    ∃ m' message, run (step 60000) onePrimary twiceFailing = some m' ∧
    m'.calls 0 = some (.threw message) ∧
    attempts 60000 0 onePrimary twiceFailing = [⟨0, false, false⟩, ⟨0, true, false⟩] ∧
    ¬Exhaustive 3 (attempts 60000 0 onePrimary twiceFailing) (.threw message) ∧
    ¬Spares 3 (attempts 60000 0 onePrimary twiceFailing) := by
  have hattempts : attempts 60000 0 onePrimary twiceFailing =
      [⟨0, false, false⟩, ⟨0, true, false⟩] := by
    decide +kernel
  have hrun : (run (step 60000) onePrimary twiceFailing).bind (fun m => m.calls 0) =
      some (allFailed [⟨"https://soroban-testnet.stellar.org", "timeout"⟩,
        ⟨"https://soroban-testnet.stellar.org", "timeout"⟩]) := by
    decide +kernel
  obtain ⟨m', hm', hcall⟩ := Option.bind_eq_some_iff.mp hrun
  refine ⟨m', _, hm', hcall, hattempts, ?_, ?_⟩
  · rw [hattempts]
    intro h
    obtain ⟨a, ha, hnode⟩ := h 1 (by decide)
    simp only [List.mem_cons, List.not_mem_nil, or_false] at ha
    rcases ha with rfl | rfl <;> cases hnode
  · rw [hattempts]
    intro h
    obtain ⟨b, hb, -, hnode⟩ :=
      h ⟨0, true, false⟩ (by decide) rfl ⟨⟨0, false, false⟩, by decide, rfl, rfl⟩ 1 (by decide)
    simp only [List.mem_cons, List.not_mem_nil, or_false] at hb
    rcases hb with rfl | rfl <;> cases hnode

end Livora.FailoverOrder
