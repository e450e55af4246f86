import Livora.BatchServices
import Livora.StockRaces

/-! Who may change a batch. A service reads its batches before it writes them; whatever the calls
answer, what it writes was read as the caller's own, but for a batch that is flagged: any centre
releases it. -/

namespace Livora.BatchOwners

open EffectPrograms EffectPrograms.Action KeyedRows BatchBooks BatchDesk BatchDesk.World BatchServices
open RewardStrategies StockBooks
open BackOffice (Role)
open StockRaces (normalLetters)
open StoreBooks (Failure)

/-! ### The law -/

/-- Whose call the endpoint is: the collector's of the batch, or the centre's that it goes to. -/
def owner : Endpoint → Batch → Option String
  | .update _ _, b => some b.collectorId
  | .dispute _ _, b => some b.collectorId
  | .reroute _ _ _ _, b => some b.collectorId
  | .receive _ _, b => b.destinationCenterId
  | .approveFlagged _, b => b.destinationCenterId
  | .overrideDiscrepancy _ _, b => b.destinationCenterId
  | .fiatSettlement _, b => b.destinationCenterId
  | .consolidate _, b => b.destinationCenterId
  | .resolveDispute _ _ _, _ => none

def Authorized (caller : Caller) (e : Endpoint) (b : Batch) : Prop :=
  caller.role = .admin ∨ owner e b = some caller.id

def released : Endpoint → Option String
  | .approveFlagged id => some id
  | .overrideDiscrepancy id _ => some id
  | _ => none

/-- A centre releases a batch that goes to another one. -/
def Stray (caller : Caller) (e : Endpoint) (id : String) (b : Batch) : Prop :=
  released e = some id ∧ caller.role = .centroAcopio ∧ b.status = .flaggedForReview ∧
    b.destinationCenterId ≠ some caller.id

/-! ### Reading before writing -/

structure Seen where
  ids : List String
  rows : List Batch

def nothing : Seen := ⟨[], []⟩

def Seen.next (s : Seen) : (i : Op) → Except Failure (Reply i) → Seen
  | .findBatch id, .ok found => ⟨[id], (found.map FoundBatch.row).toList⟩
  | .findBatches ids, .ok rows => ⟨ids, rows⟩
  | _, _ => s

/-- What was asked for may be written, where the caller may do it to all that was found. -/
def Covers (may : String → Batch → Prop) (s : Seen) (ids : List String) : Prop :=
  s.ids = ids ∧ ∀ id ∈ ids, ∀ b ∈ s.rows, may id b

def Allowed (may : String → Batch → Prop) (s : Seen) : Op → Prop
  | .findBatch _ => s.ids = []
  | .findBatches _ => s.ids = []
  | .updateBatch id _ => Covers may s [id]
  | .reroute id _ _ => Covers may s [id]
  | .consolidate _ _ batchIds => Covers may s batchIds
  | .receive receipt => Covers may s [receipt.batchId]
  | _ => True

def protocol (may : String → Batch → Prop) :
    Protocol Seen Op fun i => Except Failure (Reply i) where
  Allowed := Allowed may
  next := Seen.next

theorem lenient (may : String → Batch → Prop) : Lenient (protocol may) where
  emit _ _ _ := ⟨trivial, fun _ => rfl⟩
  findUser _ _ := ⟨trivial, fun _ => rfl⟩
  now _ := ⟨trivial, fun _ => rfl⟩

theorem passes_updateBatch {α : Type} {may : String → Batch → Prop} {s : Seen} {id : String}
    {data : BatchData}
    {f : Batch → Work α} (hcovers : Covers may s [id]) (hf : ∀ x, Follows (protocol may) s (f x)) :
    Follows (protocol may) s (call (.updateBatch id data) >>= f) :=
  follows_call hcovers hf

theorem covers_one {may : String → Batch → Prop} {id : String} {b : Batch} (h : may id b) :
    Covers may ⟨[id], [b]⟩ [id] := by
  refine ⟨rfl, fun i hi x hx => ?_⟩
  rw [List.mem_singleton.mp hi, List.mem_singleton.mp hx]
  exact h

/-! ### The services -/

section Services

variable {may : String → Batch → Prop} {svc : Service} {id userId : String}

theorem follows_update {destinationCenterId : String}
    (hmay : ∀ b : Batch, b.collectorId = userId → may id b) :
    Follows (protocol may) nothing (updateBatch id userId destinationCenterId) := by
  refine follows_requireBatch rfl fun batch => follows_require fun howner =>
    follows_require fun _ =>
    (lenient may).requireCenter ?_
  refine passes_updateBatch (covers_one (hmay _ (beq_iff_eq.mp howner))) fun _ => ?_
  exact follows_pass ((lenient may).emit _ _) fun _ =>
    follows_pass ((lenient may).emit _ _) fun _ =>
    follows_pure _

theorem follows_receive {dto : ReceiveBatchDto}
    (hmay : ∀ b : Batch, b.destinationCenterId = some userId → may id b) :
    Follows (protocol may) nothing (receiveBatch svc id userId dto) := by
  refine follows_requireBatch rfl fun batch => follows_require fun _ => follows_require fun _ =>
    follows_require fun howner => ?_
  have hcovers : Covers may ⟨[id], [batch.row]⟩ [id] := covers_one (hmay _ (beq_iff_eq.mp howner))
  split
  · exact passes_updateBatch hcovers fun _ => follows_pass ((lenient may).emit _ _) fun _ =>
      follows_pass ((lenient may).emit _ _) fun _ => follows_pure _
  · exact passes_updateBatch hcovers fun _ => follows_call trivial fun _ =>
      follows_pass ((lenient may).emit _ _) fun _ => follows_pass ((lenient may).emit _ _) fun _ =>
        follows_pure _

theorem follows_approve {customNote : Option String}
    (hmay : ∀ b : Batch, b.status = .flaggedForReview → may id b) :
    Follows (protocol may) nothing (approveFlaggedBatch id userId customNote) := by
  refine follows_requireBatch rfl fun batch => follows_require fun hflagged => ?_
  refine passes_updateBatch (covers_one (hmay _ (beq_iff_eq.mp hflagged))) fun _ => ?_
  exact follows_call trivial fun _ => follows_pure _

theorem follows_dispute {reason : String} (hmay : ∀ b : Batch, b.collectorId = userId → may id b) :
    Follows (protocol may) nothing (disputeBatch userId id reason) := by
  refine follows_requireBatch rfl fun batch => follows_require fun howner =>
    follows_require fun _ =>
    follows_validate fun _ => ?_
  refine passes_updateBatch (covers_one (hmay _ (beq_iff_eq.mp howner))) fun _ => ?_
  exact follows_pass ((lenient may).emit _ _) fun _ =>
    follows_pass ((lenient may).emit _ _) fun _ =>
    follows_pure _

theorem follows_resolve {adjustedMaterials : Option NumberRecord} {resolutionNote : Option String}
    (hmay : ∀ b, may id b) :
    Follows (protocol may) nothing (resolveDispute id adjustedMaterials resolutionNote) :=
  follows_requireBatch rfl fun _ => follows_require fun _ => follows_perform (covers_one (hmay _))

theorem follows_settlement (hmay : ∀ b : Batch, b.destinationCenterId = some userId → may id b) :
    Follows (protocol may) nothing (fiatSettlement userId id) := by
  refine follows_requireBatch rfl fun batch => follows_require fun howner =>
    follows_require fun _ =>
    follows_require fun _ => follows_require fun _ => follows_pass (lenient may).now fun now => ?_
  refine passes_updateBatch (covers_one (hmay _ (beq_iff_eq.mp howner))) fun _ => ?_
  exact follows_pass ((lenient may).emit _ _) fun _ =>
    follows_pass ((lenient may).emit _ _) fun _ =>
    follows_pass ((lenient may).emit _ _) fun _ => follows_pure _

theorem follows_reroute {newCenterId : String} {reason proofPhotoUrl : Option String}
    (hmay : ∀ b : Batch, b.collectorId = userId → may id b) :
    Follows (protocol may) nothing (rerouteBatch id userId newCenterId reason proofPhotoUrl) := by
  refine follows_requireBatch rfl fun batch => follows_require fun howner =>
    follows_require fun _ =>
    follows_validate fun _ => follows_require fun _ => (lenient may).requireCenter ?_
  refine follows_call (covers_one (hmay _ (beq_iff_eq.mp howner))) fun _ => ?_
  exact (lenient may).tellCenter fun _ => follows_pass ((lenient may).emit _ _) fun _ =>
    follows_pass ((lenient may).emit _ _) fun _ => follows_pass ((lenient may).emit _ _) fun _ =>
      follows_pure _

theorem authorized_or_stray {caller : Caller} {e : Endpoint} {b : Batch}
    (hreleased : released e = some id) (hrole : caller.role = .admin ∨ caller.role = .centroAcopio)
    (hflagged : b.status = .flaggedForReview)
    (howner : owner e b = b.destinationCenterId) : Authorized caller e b ∨ Stray caller e id b := by
  by_cases hdestined : b.destinationCenterId = some caller.id
  · exact Or.inl (Or.inr (howner.trans hdestined))
  · rcases hrole with hadmin | hcenter
    · exact Or.inl (Or.inl hadmin)
    · exact Or.inr ⟨hreleased, hcenter, hflagged, hdestined⟩

theorem follows_consolidated {batchIds : List String}
    (hmay : ∀ i (b : Batch), b.destinationCenterId = some userId → may i b) :
    Follows (protocol may) nothing (createConsolidatedBatch userId batchIds) := by
  refine follows_call rfl fun rows => follows_require fun _ =>
    follows_requireMembers fun hrows => ?_
  exact follows_perform ⟨rfl, fun i _ b hb => hmay i b (hrows b hb).1⟩

theorem endpoint_follows (svc : Service) (caller : Caller) (e : Endpoint) :
    Follows (protocol fun id b => Authorized caller e b ∨ Stray caller e id b) nothing
      (endpoint svc caller e) := by
  refine follows_require fun hrole => ?_
  cases e with
  | update id destinationCenterId =>
    exact follows_bind (follows_update fun b hb => Or.inl (Or.inr (congrArg some hb))) fun _ _ =>
      follows_pure _
  | receive id dto =>
    exact follows_bind (follows_receive fun b hb => Or.inl (Or.inr hb)) fun _ _ => follows_pure _
  | approveFlagged id =>
    have hroles : caller.role = .admin ∨ caller.role = .centroAcopio := by simpa [roles] using hrole
    exact follows_bind (follows_approve fun b hb => authorized_or_stray rfl hroles hb rfl)
      fun _ _ =>
      follows_pure _
  | overrideDiscrepancy id note =>
    have hroles : caller.role = .admin ∨ caller.role = .centroAcopio := by simpa [roles] using hrole
    exact follows_bind (follows_approve fun b hb => authorized_or_stray rfl hroles hb rfl)
      fun _ _ =>
      follows_pure _
  | fiatSettlement id =>
    exact follows_bind (follows_settlement fun b hb => Or.inl (Or.inr hb)) fun _ _ => follows_pure _
  | dispute id reason =>
    exact follows_bind (follows_dispute fun b hb => Or.inl (Or.inr (congrArg some hb))) fun _ _ =>
      follows_pure _
  | resolveDispute id materialsActual resolutionNote =>
    have hadmin : caller.role = .admin := by simpa [roles] using hrole
    exact follows_bind (follows_resolve fun b => Or.inl (Or.inl hadmin)) fun _ _ => follows_pure _
  | reroute id newCenterId reason proofPhotoUrl =>
    exact follows_bind (follows_reroute fun b hb => Or.inl (Or.inr (congrArg some hb))) fun _ _ =>
      follows_pure _
  | consolidate batchIds =>
    exact follows_bind (follows_consolidated fun i b hb => Or.inl (Or.inr hb)) fun _ _ =>
      follows_pure _

end Services

/-! ### A call by itself -/

/-- The tables answer the calls; `o` says how the answers arrive. -/
def serving (t : Letters) (o : ℕ → Outcome) (s : World × ℕ) (i : Op) :
    Except Failure (Reply i) × World × ℕ :=
  (s.1.reply t i (o s.2), s.1.after t i (o s.2), s.2 + 1)

def respond (t : Letters) (svc : Service) (o : ℕ → Outcome) (w : World) (caller : Caller)
    (e : Endpoint) :
    Except Failure Answer × World :=
  let r := exec (serving t o) (w, 0) (endpoint svc caller e)
  (r.1, r.2.1)

section Serving

variable {t : Letters} {svc : Service} {o : ℕ → Outcome} {w w' : World}
    {may : String → Batch → Prop}
  {s : Seen} {i : Op} {id : String}

/-- What was found are the batches as they were in the beginning; a batch that is another one by now
was found as one that may be written. -/
structure Held (may : String → Batch → Prop) (w w' : World) (s : Seen) : Prop where
  unread : s.ids = [] → ∀ id, w'.findBatch id = w.findBatch id
  found : ∀ id ∈ s.ids, ∀ b, w.findBatch id = some b → b ∈ s.rows
  kept : ∀ id, w.findBatch id = none → w'.findBatch id = none
  changed : ∀ id b, w.findBatch id = some b → w'.findBatch id ≠ some b → may id b

theorem held_start : Held may w w nothing :=
  ⟨fun _ _ => rfl, fun _ hid => absurd hid List.not_mem_nil, fun _ h => h, fun _ _ h hne =>
    absurd h hne⟩

theorem held_write {o : Outcome} (h : Held may w w' s) (hcovers : Covers may s (writes i)) :
    Held may w (w'.after t i o) s where
  unread hids id := by
    have hnone : id ∉ writes i := by
      rw [← hcovers.1, hids]
      exact List.not_mem_nil
    rw [findBatch_after_of_not_mem hnone]
    exact h.unread hids id
  found := h.found
  kept id hid := by
    rcases (findBatch_after : (w'.after t i o).findBatch id = w'.findBatch id ∨
        _) with hafter | hafter
    · rw [hafter, h.kept id hid]
    · rw [hafter, h.kept id hid, Option.map_none]
  changed id b hb hne := by
    by_cases hid : id ∈ writes i
    · exact hcovers.2 id hid b (h.found id (hcovers.1 ▸ hid) b hb)
    · rw [findBatch_after_of_not_mem hid] at hne
      exact h.changed id b hb hne

theorem held_quiet {o : Outcome} (h : Held may w w' s) (hwrites : writes i = []) :
    Held may w (w'.after t i o) s := by
  have hsame : ∀ id, (w'.after t i o).findBatch id = w'.findBatch id := fun id =>
    findBatch_after_of_not_mem (hwrites ▸ List.not_mem_nil)
  refine ⟨fun hids id => ?_, h.found, fun id hid => ?_, fun id b hb hne => ?_⟩
  · rw [hsame id, h.unread hids id]
  · rw [hsame id, h.kept id hid]
  · exact h.changed id b hb (hsame id ▸ hne)

theorem held_read {ids : List String} {rows : List Batch} (h : Held may w w' s) (hids : s.ids = [])
    (hrows : ∀ id ∈ ids, ∀ b, w'.findBatch id = some b → b ∈ rows) : Held may w w' ⟨ids, rows⟩ :=
  ⟨fun _ => h.unread hids, fun id hid b hb => hrows id hid b (h.unread hids id ▸ hb), h.kept,
    h.changed⟩

theorem held_step {o : Outcome} (h : Held may w w' s) (hallowed : Allowed may s i) :
    Held may w (w'.after t i o) (s.next i (w'.reply t i o)) := by
  cases i with
  | findBatch id =>
    refine held_quiet (i := .findBatch id) ?_ rfl
    cases hreply : w'.reply t (.findBatch id) o with
    | error e => exact h
    | ok found =>
      obtain ⟨-, rfl⟩ := PinVerification.Delivery.answer_ok hreply
      refine held_read h hallowed fun i hi b hb => ?_
      rw [List.mem_singleton.mp hi] at hb
      simp [World.foundBatch, hb]
  | findBatches ids =>
    refine held_quiet (i := .findBatches ids) ?_ rfl
    cases hreply : w'.reply t (.findBatches ids) o with
    | error e => exact h
    | ok rows =>
      obtain ⟨-, rfl⟩ := PinVerification.Delivery.answer_ok hreply
      refine held_read h hallowed fun i hi b hb => ?_
      refine List.mem_filter.mpr ⟨mem_of_lookup hb, ?_⟩
      rw [key_of_lookup hb]
      exact List.contains_iff_mem.mpr hi
  | updateBatch id data => exact held_write h hallowed
  | reroute id newCenterId dispute => exact held_write h hallowed
  | consolidate centerId totalWeight batchIds => exact held_write h hallowed
  | receive receipt => exact held_write h hallowed
  | _ => exact held_quiet h rfl

theorem changed_by_owner {caller : Caller} {e : Endpoint}
    (h : (respond t svc o w caller e).2.findBatch id ≠ w.findBatch id) :
    ∃ b, w.findBatch id = some b ∧ (Authorized caller e b ∨ Stray caller e id b) := by
  obtain ⟨s, hs⟩ : ∃ s, Held (fun id b => Authorized caller e b ∨ Stray caller e id b) w
      (respond t svc o w caller e).2 s :=
    (endpoint_follows svc caller e).exec (w := (w, 0)) (I := fun s v => Held _ w v.1 s)
      (fun _ _ _ h hallowed => held_step h hallowed) held_start
  cases hb : w.findBatch id with
  | none => exact absurd (hs.kept id hb) (hb ▸ h)
  | some b => exact ⟨b, rfl, hs.changed id b hb (hb ▸ h)⟩

/-! ### What is released -/

def answered (_ : ℕ) : Outcome := ⟨.done, "", none⟩

theorem findBatch_updateBatch {data : BatchData} {b : Batch} (hb : w.findBatch id = some b) :
    (w.updateBatch id data).findBatch id = some (set data b) := by
  have hlookup : (w.updateBatch id data).findBatch id =
      (w.findBatch id).map fun b => if b.id = id then set data b else b :=
    lookup_map fun b => by split <;> rfl
  rw [hlookup, hb, Option.map_some, if_pos (key_of_lookup hb)]

theorem findBatch_addJob {data : BatchJob} : (w.addJob data).findBatch id = w.findBatch id := by
  unfold addJob
  split <;> rfl

theorem exec_requireBatch {b : Batch} {n : ℕ} (hb : w.findBatch id = some b) :
    ∃ requests, exec (serving t answered) (w, n)
    (requireBatch id) = (.ok ⟨b, requests⟩, w, n + 1) := by
  have hfound : w.foundBatch id = some ⟨b, w.requests.filter fun r => r.batchId == some id⟩ := by
    simp [foundBatch, hb]
  have hcall : exec (serving t answered) (w, n) (call (.findBatch id)) =
      (.ok (some ⟨b, w.requests.filter fun r => r.batchId == some id⟩), w, n + 1) := by
    rw [← hfound]
    rfl
  unfold requireBatch
  exact ⟨_, exec_bind_of_ok hcall⟩

theorem exec_updateBatch {b : Batch} {n : ℕ} {data : BatchData} (hb : w.findBatch id = some b) :
    exec (serving t answered) (w, n) (call (.updateBatch id data)) =
      (.ok (set data b), w.updateBatch id data, n + 1) := by
  have hattempt : w.attempt t (answered n) (.updateBatch id data) =
      some (w.updateBatch id data) := by
    simp [attempt, hb]
  have hreply : w.reply t (.updateBatch id data) (answered n) = .ok (set data b) := by
    simp only [reply, written, hattempt, Option.bind_some, findBatch_updateBatch hb]
    rfl
  have hafter : w.after t (.updateBatch id data) (answered n) =
      (w.attempt t (answered n) (.updateBatch id data)).getD w := rfl
  rw [hattempt, Option.getD_some] at hafter
  exact Prod.ext hreply (Prod.ext hafter rfl)

theorem exec_approve {b : Batch} {n : ℕ} {approverId : String} {customNote : Option String}
    (hb : w.findBatch id = some b) (hflagged : b.status = .flaggedForReview) :
    ∃ updated w', exec (serving t answered) (w, n) (approveFlaggedBatch id approverId customNote) =
      (.ok updated, w', n + 3) ∧ (w'.findBatch id).map Batch.status = some .processing := by
  obtain ⟨requests, hread⟩ := exec_requireBatch (t := t) (n := n) hb
  unfold approveFlaggedBatch
  rw [exec_bind_of_ok hread, hflagged]
  rw [exec_bind_of_ok (show exec (serving t answered) (w, n + 1) (require _ _) =
    (.ok (), w, n + 1) from rfl)]
  rw [exec_bind_of_ok (exec_updateBatch hb)]
  refine ⟨_, _, rfl, ?_⟩
  have hjob : ∀ (w' : World) data, ((w'.addJob data).findBatch id).map Batch.status =
    (w'.findBatch id).map Batch.status := fun w' data => by rw [findBatch_addJob]
  refine (hjob _ _).trans ?_
  rw [findBatch_updateBatch hb]
  rfl

theorem service_of_released {caller : Caller} {e : Endpoint} (h : released e = some id) :
    roles e = [.admin, .centroAcopio] ∧
      ∃ customNote, service svc caller e = one (approveFlaggedBatch id caller.id customNote) := by
  cases e with
  | approveFlagged id' =>
    cases h
    exact ⟨rfl, none, rfl⟩
  | overrideDiscrepancy id' customNote =>
    cases h
    exact ⟨rfl, customNote, rfl⟩
  | _ => cases h

theorem respond_release {caller : Caller} {e : Endpoint} {b : Batch} (hb : w.findBatch id = some b)
    (hstray : Stray caller e id b) :
    ∃ answer, (respond t svc answered w caller e).1 = .ok answer ∧
      ((respond t svc answered w caller e).2.findBatch id).map Batch.status = some .processing := by
  obtain ⟨hreleased, hcenter, hflagged, -⟩ := hstray
  obtain ⟨hroles, customNote, hservice⟩ :
      _ ∧ ∃ customNote, service svc caller e = one (approveFlaggedBatch id caller.id customNote) :=
    service_of_released hreleased
  obtain ⟨updated, w', happrove, hstatus⟩ :
      ∃ updated w', exec (serving t answered) (w, 0) (approveFlaggedBatch id caller.id customNote) =
        (.ok updated, w', 3) ∧ (w'.findBatch id).map Batch.status = some .processing :=
    exec_approve hb hflagged
  have hguard : exec (serving t answered) (w, 0) (rolesGuard (roles e) caller) =
      (.ok (), w, 0) := by
    unfold rolesGuard require
    rw [hroles, hcenter]
    rfl
  have hrun : exec (serving t answered) (w, 0) (endpoint svc caller e) =
      (.ok (.batch updated), w', 3) := by
    unfold endpoint
    rw [exec_bind_of_ok hguard, hservice]
    exact exec_bind_of_ok happrove
  unfold respond
  rw [hrun]
  exact ⟨_, rfl, hstatus⟩

theorem not_authorized {caller : Caller} {e : Endpoint} {b : Batch} (h : Stray caller e id b) :
    ¬Authorized caller e b := by
  obtain ⟨hreleased, hcenter, -, hother⟩ := h
  rintro (hadmin | howner)
  · rw [hcenter] at hadmin
    cases hadmin
  · cases e with
    | approveFlagged id' => exact hother howner
    | overrideDiscrepancy id' customNote => exact hother howner
    | _ => cases hreleased

/-- The calls that change a batch succeed for its owner and the administrator alone, unless a centre
releases the flagged batch of another one. -/
theorem succeeds_for_owner_iff {caller : Caller} {e : Endpoint} :
    (∀ o answer, (respond t svc o w caller e).1 = .ok answer →
      (respond t svc o w caller e).2.findBatch id ≠ w.findBatch id →
      ∃ b, w.findBatch id = some b ∧ Authorized caller e b) ↔
    ¬∃ b, w.findBatch id = some b ∧ Stray caller e id b := by
  constructor
  · rintro h ⟨b, hb, hstray⟩
    obtain ⟨answer, hanswer, hstatus⟩ := respond_release hb hstray
    obtain ⟨b', hb', hauthorized⟩ := h answered answer hanswer fun hsame => by
      rw [hsame, hb] at hstatus
      have hflagged : b.status = .flaggedForReview := hstray.2.2.1
      cases hflagged.symm.trans (Option.some.inj hstatus)
    cases hb.symm.trans hb'
    exact not_authorized hstray hauthorized
  · intro h o answer _ hchanged
    obtain ⟨b, hb, hauthorized | hstray⟩ := changed_by_owner hchanged
    · exact ⟨b, hb, hauthorized⟩
    · exact absurd ⟨b, hb, hstray⟩ h

end Serving

/-! ### A centre that is not the batch's -/

theorem fifteen_lt : 15 < 2 ^ 53 := by decide

def reception : Service := ⟨.ofNat 15 fifteen_lt⟩

def flagged : Batch where
  id := "batch-1"
  status := .flaggedForReview
  collectorId := "collector-1"
  destinationCenterId := some "center-1"
  materialsActual := none
  hasDiscrepancy := true
  discrepancyNote := none
  consolidatedBatchId := none
  ipfsCid := none
  txHash := none
  fiatSettled := false
  fiatSettledAt := none
  createdAt := 0
  updatedAt := 0

def desk : World := ⟨[], [flagged], [], [], [], ⟨[], []⟩, [], 0⟩

def otherCenter : Caller := ⟨"center-2", .centroAcopio⟩

/-- The other centre gets the batch into processing. -/
theorem other_center_releases :
    ∃ answer,
      (respond normalLetters reception answered desk otherCenter (.approveFlagged "batch-1")).1 =
        .ok answer ∧
      (respond normalLetters reception answered desk otherCenter
        (.approveFlagged "batch-1")).2.findBatch
        "batch-1" ≠ desk.findBatch "batch-1" ∧
      ¬∃ b, desk.findBatch "batch-1" = some b ∧
        Authorized otherCenter (.approveFlagged "batch-1") b := by
  have hb : desk.findBatch "batch-1" = some flagged := by decide
  have hstray : Stray otherCenter (.approveFlagged "batch-1") "batch-1" flagged := by
    refine ⟨rfl, rfl, rfl, ?_⟩
    decide
  obtain ⟨answer, hanswer, hstatus⟩ := respond_release hb hstray
  refine ⟨answer, hanswer, fun hsame => ?_, ?_⟩
  · rw [hsame, hb] at hstatus
    cases hstatus
  · rintro ⟨b, hfound, hauthorized⟩
    cases hb.symm.trans hfound
    exact not_authorized hstray hauthorized

end Livora.BatchOwners
