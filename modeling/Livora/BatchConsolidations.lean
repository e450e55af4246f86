import Livora.BatchOwners
import Livora.BatchStages
import Livora.BatchWeights
import Livora.Overtakings

/-! Consolidations among the other calls on batches, in any order of their steps. A batch joins one
consolidation, as a batch that is received, and a consolidation weighs what its batches weigh, along
every run in which nobody writes a batch between its read and the write that rests on it. -/

namespace Livora.BatchConsolidations

open DoubleRounding TransitionRuns EffectPrograms ProgramPools ProgramPools.System KeyedRows Overtakings BatchBooks
open BatchDesk BatchDesk.World BatchServices BatchWorker BatchStages BatchWeights StockBooks
open BatchOwners (reception)
open PinVerification (Delivery)
open StockRaces (normalLetters)

/-! ### Consolidations -/

def pointsTo (id : String) (b : Batch) : Bool := b.consolidatedBatchId == some id

/-- Each consolidation weighs what exactly the batches that point to it weigh. -/
structure Sound (w : World) : Prop where
  single : (w.consolidated.map ConsolidatedBatch.id).Nodup
  belongs : ∀ b ∈ w.batches, ∀ id, b.consolidatedBatchId = some id → ∃ row ∈ w.consolidated,
    row.id = id
  weighs : ∀ row ∈ w.consolidated, row.totalWeight = togetherKg (w.batches.filter (pointsTo row.id))

/-- A batch that has joined a consolidation stays in it, and one that joins is received. -/
structure Joins (w w' : World) : Prop where
  stays : ∀ id b b', w.findBatch id = some b → w'.findBatch id = some b' →
    b.consolidatedBatchId ≠ none → b'.consolidatedBatchId = b.consolidatedBatchId
  received : ∀ id b b', w.findBatch id = some b → w'.findBatch id = some b' →
    b.consolidatedBatchId = none → b'.consolidatedBatchId ≠ none → b.status = .received

/-- A consolidation is written while its batches are as they were read, received and in no other
one; a batch that has joined one keeps its weight. -/
def Faithful (s : Stage) (w : World) : Op → Prop
  | .consolidate _ _ batchIds =>
    (∀ b ∈ w.findBatches batchIds, b.status = .received ∧ b.consolidatedBatchId = none) ∧
      (w.findBatches batchIds).map Batch.materialsActual = s.rows.map Batch.materialsActual ∧
      Measured s.rows
  | .updateBatch id data => ∀ b ∈ w.batches, b.id = id → b.consolidatedBatchId ≠ none →
    weightKg (set data b) = weightKg b
  | _ => True

def AsRead (c : Race Stage) : RaceEvent → Prop
  | .advance j o => o.delivery.applied = true → ∀ s i, stages c j = some s → pending c j = some i →
    Faithful s c.world i
  | _ => True

/-- After the step the consolidations are sound, and batches have joined as they should. -/
def Good (svc : Backend) (c : Race Stage) (e : RaceEvent) : Prop :=
  ∀ c', (race svc).step c e = some c' → Sound c'.world ∧ Joins c.world c'.world

/-! ### What a write does -/

variable {t : Letters} {svc : Backend} {w w' : World} {i : Op} {o : Outcome} {s : Stage} {b : Batch}
  {id : String}

theorem consolidated_attempt (h : w.attempt t o i = some w')
    (hi : ∀ centerId totalWeight batchIds, i ≠ .consolidate centerId totalWeight batchIds) :
    w'.consolidated = w.consolidated := by
  cases i with
  | updateBatch id data =>
    obtain ⟨-, -, rfl⟩ := Option.map_eq_some_iff.mp h
    rfl
  | reroute id newCenterId dispute =>
    obtain ⟨-, -, rfl⟩ := Option.map_eq_some_iff.mp h
    rfl
  | consolidate centerId totalWeight batchIds => exact absurd rfl (hi _ _ _)
  | addJob data =>
    cases h
    unfold addJob
    split <;> rfl
  | receive receipt =>
    obtain ⟨_, -, h⟩ := Option.bind_eq_some_iff.mp h
    obtain ⟨_, -, h⟩ := Option.bind_eq_some_iff.mp h
    cases h
    rfl
  | _ =>
    cases h
    rfl

theorem newRow_some {centerId : String} {totalWeight : ℚ} {row : ConsolidatedBatch}
    (h : w.newRow id centerId totalWeight = some row) :
    row.id = id ∧ ∀ other ∈ w.consolidated, other.id ≠ id := by
  unfold newRow at h
  split at h
  · cases h
  · rename_i hfresh
    obtain ⟨_, -, h⟩ := Option.bind_eq_some_iff.mp h
    obtain ⟨_, -, h⟩ := Option.bind_eq_some_iff.mp h
    cases h
    refine ⟨rfl, fun other hother heq => hfresh ?_⟩
    exact List.any_eq_true.mpr ⟨other, hother, beq_iff_eq.mpr heq⟩

theorem pointsTo_eq_true {b : Batch} : pointsTo id b = true ↔ b.consolidatedBatchId = some id :=
  beq_iff_eq

/-- What leaves every batch where it is, and the weight of those that have joined. -/
structure Steady (f : Batch → Batch) (w : World) : Prop where
  points : ∀ b ∈ w.batches, (f b).consolidatedBatchId = b.consolidatedBatchId
  weight : ∀ b ∈ w.batches, b.consolidatedBatchId ≠ none → weightKg (f b) = weightKg b

theorem sound_map {f : Batch → Batch} (h : Sound w) (hf : Steady f w)
    (hbatches : w'.batches = w.batches.map f) (hconsolidated : w'.consolidated = w.consolidated) :
    Sound w' where
  single := by
    rw [hconsolidated]
    exact h.single
  belongs b hb id hid := by
    rw [hbatches] at hb
    obtain ⟨old, hold, rfl⟩ := List.mem_map.mp hb
    rw [hconsolidated]
    exact h.belongs old hold id (hf.points old hold ▸ hid)
  weighs row hrow := by
    rw [hconsolidated] at hrow
    rw [h.weighs row hrow, hbatches, togetherKg, togetherKg, List.filter_map, List.map_map]
    have hsame : w.batches.filter (pointsTo row.id ∘ f) = w.batches.filter (pointsTo row.id) :=
      List.filter_congr fun b hb => by rw [Function.comp_apply, pointsTo, pointsTo, hf.points b hb]
    rw [hsame]
    refine congrArg List.sum (List.map_congr_left fun b hb => ?_)
    obtain ⟨hb, hpoints⟩ := List.mem_filter.mp hb
    refine (hf.weight b hb ?_).symm
    rw [pointsTo_eq_true.mp hpoints]
    exact Option.some_ne_none _

theorem joins_of_points (h : ∀ id b b', w.findBatch id = some b → w'.findBatch id = some b' →
    b'.consolidatedBatchId = b.consolidatedBatchId) : Joins w w' where
  stays id b b' hb hb' _ := h id b b' hb hb'
  received id b b' hb hb' hnone hsome := absurd (h id b b' hb hb' ▸ hnone) hsome

theorem joins_map {f : Batch → Batch} (hid : ∀ b, (f b).id = b.id) (hf : Steady f w)
    (hbatches : w'.batches = w.batches.map f) : Joins w w' := by
  refine joins_of_points fun id b b' hb hb' => ?_
  unfold findBatch at hb hb'
  rw [hbatches, lookup_map hid, hb] at hb'
  cases hb'
  exact hf.points b (mem_of_lookup hb)

theorem steady_change (hi : ∀ centerId totalWeight batchIds,
    i ≠ .consolidate centerId totalWeight batchIds)
    (hfaithful : Faithful s w i) : Steady (change o i) w where
  points b hb := by
    cases i with
    | consolidate centerId totalWeight batchIds => exact absurd rfl (hi _ _ _)
    | updateBatch id data =>
      simp only [change]
      split <;> rfl
    | reroute id newCenterId dispute =>
      simp only [change]
      split <;> rfl
    | receive receipt =>
      simp only [change, receivedAs]
      split <;> rfl
    | _ => rfl
  weight b hb hjoined := by
    cases i with
    | consolidate centerId totalWeight batchIds => exact absurd rfl (hi _ _ _)
    | updateBatch id data =>
      simp only [change]
      split
      · exact hfaithful b hb ‹_› hjoined
      · rfl
    | reroute id newCenterId dispute =>
      refine weightKg_congr ?_
      simp only [change]
      split <;> rfl
    | receive receipt =>
      refine weightKg_congr ?_
      simp only [change, receivedAs]
      split <;> rfl
    | _ => rfl

/-! ### A consolidation -/

section Consolidation

variable {centerId : String} {totalWeight : ℚ} {batchIds : List String} {row : ConsolidatedBatch}

theorem filter_joined (hfresh : ∀ b ∈ w.batches, b.consolidatedBatchId ≠ some row.id) :
    (w.consolidate row batchIds).batches.filter (pointsTo row.id) =
      (w.findBatches batchIds).map (joined row.id) := by
  unfold World.consolidate World.findBatches
  rw [List.filter_map]
  have hsame : w.batches.filter (pointsTo row.id ∘ fun b =>
    if batchIds.contains b.id then joined row.id b else b) =
      w.batches.filter fun b => batchIds.contains b.id := by
    refine List.filter_congr fun b hb => ?_
    rw [Function.comp_apply]
    split
    · rename_i hmem
      rw [hmem]
      exact pointsTo_eq_true.mpr rfl
    · rename_i hmem
      rw [Bool.not_eq_true] at hmem
      rw [hmem]
      exact Bool.eq_false_iff.mpr fun hpoints => hfresh b hb (pointsTo_eq_true.mp hpoints)
  rw [hsame]
  exact List.map_congr_left fun b hb => if_pos (List.mem_filter.mp hb).2

theorem filter_others {other : String} (hother : other ≠ row.id)
    (hnone : ∀ b ∈ w.findBatches batchIds, b.consolidatedBatchId = none) :
    (w.consolidate row batchIds).batches.filter (pointsTo other) =
      w.batches.filter (pointsTo other) := by
  unfold World.consolidate
  rw [List.filter_map]
  have hsame : w.batches.filter (pointsTo other ∘ fun b =>
    if batchIds.contains b.id then joined row.id b else b) =
      w.batches.filter (pointsTo other) := by
    refine List.filter_congr fun b hb => ?_
    rw [Function.comp_apply]
    split
    · rename_i hmem
      have hfree := hnone b (List.mem_filter.mpr ⟨hb, hmem⟩)
      have hleft : pointsTo other (joined row.id b) = false :=
        Bool.eq_false_iff.mpr fun h => hother (Option.some.inj (pointsTo_eq_true.mp h)).symm
      have hright : pointsTo other b = false :=
        Bool.eq_false_iff.mpr fun h => by rw [pointsTo_eq_true.mp h] at hfree; cases hfree
      rw [hleft, hright]
    · rfl
  rw [hsame]
  refine (List.map_congr_left fun b hb => ?_).trans (List.map_id _)
  obtain ⟨hb, hpoints⟩ := List.mem_filter.mp hb
  split
  · rename_i hmem
    have hfree := hnone b (List.mem_filter.mpr ⟨hb, hmem⟩)
    rw [pointsTo_eq_true.mp hpoints] at hfree
    cases hfree
  · rfl

theorem sound_consolidate (h : Sound w) (hrow : w.newRow id centerId totalWeight = some row)
    (hnone : ∀ b ∈ w.findBatches batchIds, b.consolidatedBatchId = none)
    (hweight : row.totalWeight = togetherKg (w.findBatches batchIds)) :
    Sound (w.consolidate row batchIds) := by
  obtain ⟨rfl, hothers⟩ := newRow_some hrow
  have hfresh : ∀ b ∈ w.batches, b.consolidatedBatchId ≠ some row.id := fun b hb hid => by
    obtain ⟨other, hother, heq⟩ := h.belongs b hb _ hid
    exact hothers other hother heq
  refine ⟨?_, fun b hb id hid => ?_, fun other hother => ?_⟩
  · refine nodup_append h.single (lookup_eq_none.mpr hothers)
  · obtain ⟨old, hold, rfl⟩ := List.mem_map.mp hb
    split at hid
    · cases hid
      exact ⟨row, List.mem_append_right _ (List.mem_singleton_self row), rfl⟩
    · obtain ⟨other, hother, heq⟩ := h.belongs old hold id hid
      exact ⟨other, List.mem_append_left _ hother, heq⟩
  · rcases List.mem_append.mp hother with hother | hother
    · rw [filter_others (hothers other hother) hnone]
      exact h.weighs other hother
    · rw [List.mem_singleton.mp hother, filter_joined hfresh, hweight]
      refine togetherKg_congr ?_
      rw [List.map_map]
      rfl

theorem joins_consolidate
    (hread : ∀ b ∈ w.findBatches batchIds, b.status = .received ∧ b.consolidatedBatchId = none) :
    Joins w (w.consolidate row batchIds) := by
  have hafter : ∀ id b b', w.findBatch id = some b → (w.consolidate row batchIds).findBatch id =
      some b' →
      b' = b ∨ b ∈ w.findBatches batchIds := by
    intro id b b' hb hb'
    have hmap : (w.consolidate row batchIds).findBatch id = (w.findBatch id).map fun b =>
        if batchIds.contains b.id then joined row.id b else b := lookup_map fun b => by
          split <;> rfl
    rw [hmap, hb, Option.map_some] at hb'
    cases hb'
    split
    · exact .inr (List.mem_filter.mpr ⟨mem_of_lookup hb, ‹_›⟩)
    · exact .inl rfl
  refine ⟨fun id b b' hb hb' hjoined => ?_, fun id b b' hb hb' hnone hsome => ?_⟩
  · rcases hafter id b b' hb hb' with rfl | hmem
    · rfl
    · exact absurd (hread b hmem).2 hjoined
  · rcases hafter id b b' hb hb' with rfl | hmem
    · exact absurd hnone hsome
    · exact (hread b hmem).1

end Consolidation

/-! ### Every run -/

theorem good_after (h : Sound w) (hallowed : Allowed s i)
    (hfaithful : o.delivery.applied = true → Faithful s w i) :
    Sound (w.after t i o) ∧ Joins w (w.after t i o) := by
  rcases after_cases t w i o with ⟨jobs, hafter, -⟩ | ⟨happlied, hattempt⟩
  · rw [hafter]
    exact ⟨⟨h.single, h.belongs, h.weighs⟩, joins_of_points fun id b b' hb hb' => by
      cases hb.symm.trans hb'; rfl⟩
  · replace hfaithful := hfaithful happlied
    by_cases hi : ∃ centerId totalWeight batchIds, i = .consolidate centerId totalWeight batchIds
    · obtain ⟨centerId, totalWeight, batchIds, rfl⟩ := hi
      obtain ⟨row, hrow, hafter⟩ := Option.map_eq_some_iff.mp hattempt
      obtain ⟨-, rfl, -⟩ := hallowed
      obtain ⟨hread, hmaterials, hmeasured⟩ := hfaithful
      have hweight : row.totalWeight = togetherKg (w.findBatches batchIds) :=
        (totalWeight_newRow hmeasured hrow).trans (togetherKg_congr hmaterials).symm
      rw [← hafter]
      exact ⟨sound_consolidate h hrow (fun b hb => (hread b hb).2) hweight, joins_consolidate hread⟩
    · have hother : ∀ centerId totalWeight batchIds,
        i ≠ .consolidate centerId totalWeight batchIds :=
        fun _ _ _ heq => hi ⟨_, _, _, heq⟩
      have hsteady : Steady (change o i) w := steady_change hother hfaithful
      exact ⟨sound_map h hsteady (batches_attempt hattempt) (consolidated_attempt hattempt hother),
        joins_map (fun _ => change_id) hsteady (batches_attempt hattempt)⟩

theorem good_outside {d : Outside} (h : Sound w) (hw : outside w d = some w') :
    Sound w' ∧ Joins w w' := by
  have hsame : w'.batches = w.batches → w'.consolidated = w.consolidated → Sound w' ∧
      Joins w w' := by
    intro hbatches hconsolidated
    have hsteady : Steady id w := ⟨fun _ _ => rfl, fun _ _ _ => rfl⟩
    have hmap : w'.batches = w.batches.map id := hbatches.trans (List.map_id _).symm
    exact ⟨sound_map h hsteady hmap hconsolidated, joins_map (fun _ => rfl) hsteady hmap⟩
  cases d with
  | «open» id collectorId centerId =>
    obtain ⟨hfresh, hw⟩ := Option.ite_none_right_eq_some.mp hw
    cases hw
    refine ⟨⟨h.single, fun b hb id hid => ?_, fun row hrow => ?_⟩,
      joins_of_points fun id' b b' hb hb' => ?_⟩
    · rcases List.mem_append.mp hb with hb | hb
      · exact h.belongs b hb id hid
      · rw [List.mem_singleton.mp hb] at hid
        cases hid
    · rw [List.filter_append]
      have hnew : [openBatch id collectorId centerId w.now].filter (pointsTo row.id) = [] := rfl
      rw [hnew, List.append_nil]
      exact h.weighs row hrow
    · change lookup Batch.id _ id' = some b' at hb'
      change lookup Batch.id _ id' = some b at hb
      rw [lookup_append, hb, Option.some_or] at hb'
      cases hb'
      rfl
  | stock stock =>
    obtain ⟨-, hw⟩ := Option.ite_none_right_eq_some.mp hw
    cases hw
    exact hsame rfl rfl
  | _ =>
    cases hw
    exact hsame rfl rfl

structure Kept (svc : Backend) (c : Race Stage) : Prop where
  disciplined : (race svc).Disciplined c
  sound : Sound c.world

variable {c c' : Race Stage} {e : RaceEvent}

theorem good_of_asRead (hkept : Kept svc c) (hread : AsRead c e) : Good svc c e := by
  intro c' h
  cases e with
  | start j a =>
    obtain ⟨-, rfl⟩ := step_start.mp h
    exact ⟨hkept.sound, joins_of_points fun id b b' hb hb' => by rw [hb] at hb'; cases hb'; rfl⟩
  | stop j =>
    obtain ⟨-, rfl⟩ := step_stop.mp h
    exact ⟨hkept.sound, joins_of_points fun id b b' hb hb' => by rw [hb] at hb'; cases hb'; rfl⟩
  | outside d =>
    obtain ⟨w, hw, rfl⟩ := step_outside.mp h
    exact good_outside hkept.sound hw
  | advance j o =>
    obtain ⟨s, i, k, ht, rfl⟩ := step_advance.mp h
    have hallowed : Allowed s i := allowed_pending hkept.disciplined (stages_eq ht) (pending_eq ht)
    exact good_after hkept.sound hallowed fun happlied =>
      hread happlied s i (stages_eq ht) (pending_eq ht)

theorem step_kept (hkept : Kept svc c) (hread : AsRead c e) (h : (race svc).step c e = some c') :
    Kept svc c' :=
  ⟨step_disciplined (follows_program svc) hkept.disciplined h, (good_of_asRead hkept hread c' h).1⟩

/-! ### Reads and writes -/

def shown : Op → Outcome → List String
  | .findBatch id, o => if o.delivery = .done then [id] else []
  | .findBatches ids, o => if o.delivery = .done then ids else []
  | _, _ => []

def relied : Op → List String
  | .updateBatch id data => if data.status.isSome then [id] else []
  | .reroute id _ _ => [id]
  | .consolidate _ _ batchIds => batchIds
  | _ => []

def writings : Traffic World Op Outcome Outside String where
  reads _ := shown
  writes _ i o := if o.delivery.applied then writes i else []
  rests _ i o := if o.delivery.applied then relied i else []
  outside
    | _, .open id _ _ => [id]
    | _, _ => []

structure Marked (w : World) : Prop where
  ids : (w.batches.map Batch.id).Nodup
  status : ∀ b ∈ w.batches, b.consolidatedBatchId ≠ none → b.status = .consolidated

/-- A consolidation is of weights that can be summed, and the worker receives a batch that belongs
to none. -/
def Regular (w : World) : Op → Prop
  | .consolidate _ _ batchIds => Measured (w.findBatches batchIds)
  | .receive receipt => ∀ b ∈ w.batches, b.id = receipt.batchId → b.consolidatedBatchId = none
  | _ => True

def RegularWrite (c : Race Stage) : RaceEvent → Prop
  | .advance j o => o.delivery.applied = true → ∀ i ∈ pending c j, Regular c.world i
  | _ => True

/-- What a call has read of batches that are not late is so. -/
def Current (w : World) (s : Stage) (late : List String) : Prop :=
  (∀ id ∈ s.ids, id ∉ late) → w.findBatches s.ids = s.rows

section Current

variable {late : List String} {j : ℕ}

theorem findBatches_one (hids : (w.batches.map Batch.id).Nodup) (id : String) :
    w.findBatches [id] = (w.findBatch id).toList := by
  have hsame : w.findBatches [id] = w.batches.filter fun b => b.id == id :=
    List.filter_congr fun b _ => by simp [beq_eq_decide]
  cases hfind : w.findBatch id with
  | none =>
    rw [hsame, Option.toList_none, List.filter_eq_nil_iff]
    exact fun b hb hid => lookup_eq_none.mp hfind b hb (beq_iff_eq.mp hid)
  | some b =>
    obtain ⟨hmem, rfl⟩ := (lookup_iff hids).mp hfind
    rw [hsame, Option.toList_some]
    refine List.perm_singleton.mp ((List.perm_ext_iff_of_nodup
      ((List.Nodup.of_map _ hids).filter _) (List.nodup_singleton b)).mpr fun a => ?_)
    rw [List.mem_filter, List.mem_singleton, beq_iff_eq]
    constructor
    · rintro ⟨ha, hid⟩
      exact List.inj_on_of_nodup_map hids ha hmem hid
    · rintro rfl
      exact ⟨hmem, rfl⟩

theorem findBatches_kept {ids : List String} (hbatches : w'.batches = w.batches.map (change o i))
    (hids : ∀ id ∈ ids, id ∉ writes i) : w'.findBatches ids = w.findBatches ids := by
  unfold findBatches
  rw [hbatches, List.filter_map]
  have hsame : w.batches.filter ((fun b => ids.contains b.id) ∘ change o i) =
      w.batches.filter fun b => ids.contains b.id :=
    List.filter_congr fun b _ => by rw [Function.comp_apply, change_id]
  rw [hsame]
  refine (List.map_congr_left fun b hb => ?_).trans (List.map_id _)
  have hmem : b.id ∈ ids := by simpa using (List.mem_filter.mp hb).2
  exact change_of_not_mem (hids _ hmem)

theorem mem_of_current {ids : List String} (hcurrent : w.findBatches ids = s.rows)
    (hb : b ∈ w.batches) (hid : b.id ∈ ids) : b ∈ s.rows := by
  rw [← hcurrent]
  exact List.mem_filter.mpr ⟨hb, by simpa using hid⟩

theorem status_of_update {data : BatchData} (h : Update b data) :
    data.status = none ∧ data.materialsActual = none ∨ data.status.isSome = true ∧
      b.status ≠ .consolidated := by
  cases h with
  | dispatch destinationCenterId found => exact .inr ⟨rfl, by rw [found]; decide⟩
  | flag materialsActual note found =>
    exact .inr ⟨rfl, by rcases found with h | h <;> rw [h] <;> decide⟩
  | accept isPartial materialsActual note found =>
    exact .inr ⟨rfl, by rcases found with h | h <;> rw [h] <;> decide⟩
  | approve note found => exact .inr ⟨rfl, by rw [found]; decide⟩
  | dispute note found => exact .inr ⟨rfl, by rw [found]; decide⟩
  | resolve materialsActual note found => exact .inr ⟨rfl, by rw [found]; decide⟩
  | settle now found => exact .inl ⟨rfl, rfl⟩

theorem update_joined {data : BatchData} (hmarked : Marked w)
    (hallowed : Allowed s (.updateBatch id data)) (hcurrent : Current w s late)
    (hfresh : ∀ m ∈ relied (.updateBatch id data), m ∉ late) (hb : b ∈ w.batches) (hid : b.id = id)
    (hjoined : b.consolidatedBatchId ≠ none) :
    data.status = none ∧ data.materialsActual = none := by
  obtain ⟨read, hids, hrows, hupdate⟩ := hallowed
  refine (status_of_update hupdate).resolve_right fun ⟨hsome, hstatus⟩ => hstatus ?_
  have hnot : id ∉ late := hfresh id (by simp [relied, hsome])
  have hfound := hcurrent (by rw [hids]; simpa using hnot)
  have hread : b ∈ s.rows :=
    mem_of_current hfound hb (by rw [hids, hid]; exact List.mem_singleton_self _)
  rw [hrows, List.mem_singleton] at hread
  rw [← hread]
  exact hmarked.status b hb hjoined

theorem marked_change (hmarked : Marked w) (hallowed : Allowed s i) (hregular : Regular w i)
    (hcurrent : Current w s late) (hfresh : ∀ id ∈ relied i, id ∉ late) (hb : b ∈ w.batches)
    (hjoined : (change o i b).consolidatedBatchId ≠ none) :
    (change o i b).status = .consolidated := by
  cases i with
  | updateBatch id data =>
    simp only [change] at hjoined ⊢
    split at hjoined
    · rename_i hid
      obtain ⟨hstatus, -⟩ := update_joined hmarked hallowed hcurrent hfresh hb hid hjoined
      rw [if_pos hid]
      change data.status.getD b.status = .consolidated
      rw [hstatus]
      exact hmarked.status b hb hjoined
    · rename_i hid
      rw [if_neg hid]
      exact hmarked.status b hb hjoined
  | reroute id newCenterId dispute =>
    obtain ⟨read, hids, hrows, hread⟩ := hallowed
    simp only [change] at hjoined ⊢
    split at hjoined
    · rename_i hid
      have hnot : id ∉ late := hfresh id (List.mem_singleton_self _)
      have hfound := hcurrent (by rw [hids]; simpa using hnot)
      have hmem : b ∈ s.rows :=
        mem_of_current hfound hb (by rw [hids, hid]; exact List.mem_singleton_self _)
      rw [hrows, List.mem_singleton] at hmem
      rw [← hmem, hmarked.status b hb hjoined] at hread
      rcases hread with h | h <;> cases h
    · rename_i hid
      rw [if_neg hid]
      exact hmarked.status b hb hjoined
  | consolidate centerId totalWeight batchIds =>
    simp only [change] at hjoined ⊢
    split at hjoined
    · rename_i hmem
      rw [if_pos hmem]
      rfl
    · rename_i hmem
      rw [if_neg hmem]
      exact hmarked.status b hb hjoined
  | receive receipt =>
    simp only [change, receivedAs] at hjoined ⊢
    split at hjoined
    · exact absurd (hregular b hb ‹_›) hjoined
    · rename_i hid
      rw [if_neg hid]
      exact hmarked.status b hb hjoined
  | _ => exact hmarked.status b hb hjoined

theorem read_next (hids : (w.batches.map Batch.id).Nodup) (t : Letters) (i : Op) (o : Outcome) :
    (next s i (w.reply t i o)).ids = s.ids ∧ (next s i (w.reply t i o)).rows = s.rows ∧ shown i o = [] ∨
      w.findBatches (next s i (w.reply t i o)).ids = (next s i (w.reply t i o)).rows ∧ writes i = [] := by
  cases i with
  | findBatch id =>
    have hreply : w.reply t (.findBatch id) o = o.delivery.answer StoreBooks.Failure.outside (w.foundBatch id) := rfl
    rw [hreply]
    unfold Delivery.answer
    split
    · refine .inr ⟨?_, rfl⟩
      change w.findBatches [id] = ((w.foundBatch id).map FoundBatch.row).toList
      rw [findBatches_one hids, foundBatch]
      cases w.findBatch id <;> rfl
    · exact .inl ⟨rfl, rfl, if_neg ‹_›⟩
  | findBatches ids =>
    have hreply : w.reply t (.findBatches ids) o = o.delivery.answer StoreBooks.Failure.outside (w.findBatches ids) := rfl
    rw [hreply]
    unfold Delivery.answer
    split
    · exact .inr ⟨rfl, rfl⟩
    · exact .inl ⟨rfl, rfl, if_neg ‹_›⟩
  | _ =>
    generalize w.reply t _ o = r
    cases r <;> exact .inl ⟨rfl, rfl, rfl⟩

theorem batches_applied (t : Letters) (w : World) (i : Op) (o : Outcome) :
    (w.after t i o).batches = w.batches ∨
      o.delivery.applied = true ∧ (w.after t i o).batches = w.batches.map (change o i) := by
  rcases after_cases t w i o with ⟨jobs, hafter, -⟩ | ⟨happlied, hattempt⟩
  · exact .inl (by rw [hafter])
  · exact .inr ⟨happlied, batches_attempt hattempt⟩

theorem findBatches_congr (h : w'.batches = w.batches) (ids : List String) :
    w'.findBatches ids = w.findBatches ids := by
  unfold findBatches
  rw [h]

theorem marked_after {t : Letters} (hmarked : Marked w) (hallowed : Allowed s i)
    (hregular : o.delivery.applied = true → Regular w i) (hcurrent : Current w s late)
    (hfresh : o.delivery.applied = true → ∀ id ∈ relied i, id ∉ late) : Marked (w.after t i o) := by
  rcases batches_applied t w i o with h | ⟨happlied, h⟩
  · refine ⟨by rw [h]; exact hmarked.ids, fun b hb => hmarked.status b (h ▸ hb)⟩
  · refine ⟨?_, fun b hb hjoined => ?_⟩
    · rw [h, List.map_map]
      have hsame : w.batches.map (Batch.id ∘ change o i) = w.batches.map Batch.id :=
        List.map_congr_left fun b _ => change_id
      exact hsame ▸ hmarked.ids
    · rw [h] at hb
      obtain ⟨old, hold, rfl⟩ := List.mem_map.mp hb
      exact marked_change hmarked hallowed (hregular happlied) hcurrent
        (hfresh happlied) hold hjoined

theorem current_after {t : Letters} {u : Stage} {late : List String} (h : Current w u late) :
    Current (w.after t i o) u (writings.writes w i o ++ late) := by
  intro hnot
  rcases batches_applied t w i o with hsame | ⟨happlied, hchange⟩
  · rw [findBatches_congr hsame]
    exact h fun id hid hmem => hnot id hid (List.mem_append_right _ hmem)
  · rw [findBatches_kept hchange fun id hid hmem => hnot id hid (List.mem_append_left _ ?_)]
    · exact h fun id hid hmem => hnot id hid (List.mem_append_right _ hmem)
    · simpa [writings, happlied] using hmem

theorem current_own {t : Letters} (hids : (w.batches.map Batch.id).Nodup) (h : Current w s late) :
    Current (w.after t i o) (next s i (w.reply t i o)) (writings.own w i o late) := by
  rcases read_next hids t i o with ⟨hsame, hrows, hshown⟩ | ⟨hread, hwrites⟩
  · have hown : writings.own w i o late = writings.writes w i o ++ late := by
      have hreads : writings.reads w i o = [] := hshown
      rw [Traffic.own, hreads]
      simp
    rw [hown]
    intro hnot
    rw [hsame, hrows] at *
    exact current_after h hnot
  · intro _
    rcases batches_applied t w i o with hsame | ⟨-, hchange⟩
    · rw [findBatches_congr hsame]
      exact hread
    · rw [findBatches_kept hchange fun id _ hmem => by rw [hwrites] at hmem; cases hmem]
      exact hread

theorem steady_writings (svc : Backend) :
    writings.Steady (race svc) RegularWrite Marked Current where
  first w _ := by
    change w.batches.filter _ = []
    exact List.filter_eq_nil_iff.mpr fun b _ h => by cases h
  call c j o s i late hmarked hcurrent hi hallowed hregular hfresh := by
    refine ⟨marked_after hmarked hallowed (fun happlied => hregular happlied i hi) hcurrent
      fun happlied id hid => ?_,
      current_own hmarked.ids hcurrent, fun u late hu => current_after hu⟩
    exact hfresh id (by simpa [writings, happlied] using hid)
  outside c d w hmarked _ hw := by
    have hsame : w.batches = c.world.batches → Marked w ∧ ∀ t late, Current c.world t late →
        Current w t (writings.outside c.world d ++ late) := by
      intro hbatches
      refine ⟨⟨by rw [hbatches]; exact hmarked.ids, fun b hb => hmarked.status b (hbatches ▸ hb)⟩,
        fun t late ht hnot => ?_⟩
      rw [findBatches_congr hbatches]
      exact ht fun id hid hmem => hnot id hid (List.mem_append_right _ hmem)
    cases d with
    | «open» id collectorId centerId =>
      obtain ⟨hnew, hw⟩ := Option.ite_none_right_eq_some.mp hw
      cases hw
      refine ⟨⟨?_, fun b hb hjoined => ?_⟩, fun t late ht hnot => ?_⟩
      · exact nodup_append hmarked.ids hnew
      · rcases List.mem_append.mp hb with hb | hb
        · exact hmarked.status b hb hjoined
        · rw [List.mem_singleton.mp hb] at hjoined
          exact absurd rfl hjoined
      · have hother : t.ids.contains id = false := by
          rw [List.contains_eq_mem, decide_eq_false_iff_not]
          exact fun hmem => hnot id hmem (List.mem_append_left _ (List.mem_singleton_self id))
        change (c.world.batches ++ [openBatch id collectorId centerId c.world.now]).filter _ = _
        rw [List.filter_append]
        have hnone : [openBatch id collectorId centerId c.world.now].filter
            (fun b => t.ids.contains b.id) = [] := by simpa [openBatch] using hother
        rw [hnone, List.append_nil]
        exact ht fun id hid hmem => hnot id hid (List.mem_append_right _ hmem)
    | stock stock =>
      obtain ⟨-, hw⟩ := Option.ite_none_right_eq_some.mp hw
      cases hw
      exact hsame rfl
    | _ =>
      cases hw
      exact hsame rfl

theorem asRead_of_current {c : Race Stage} {e : RaceEvent} {late : ℕ → List String}
    (hknown : Traffic.Known (race svc) Marked Current (c, late)) (hregular : RegularWrite c e)
    (hfresh : writings.Fresh (c, late) e) : AsRead c e := by
  cases e with
  | advance j o =>
    intro happlied s i hs hi
    have hallowed : Allowed s i := allowed_pending hknown.disciplined hs hi
    have hcurrent : Current c.world s (late j) := hknown.stage j s hs
    have hfresh : ∀ id ∈ relied i, id ∉ late j := fun id hid =>
      hfresh i hi id (by simpa [writings, happlied] using hid)
    cases i with
    | consolidate centerId totalWeight batchIds =>
      obtain ⟨rfl, -, hreceived⟩ := hallowed
      have hrows : c.world.findBatches s.ids = s.rows := hcurrent hfresh
      have hmeasured : Measured (c.world.findBatches s.ids) := hregular happlied _ hi
      refine ⟨fun b hb => ?_, by rw [hrows], hrows ▸ hmeasured⟩
      have hstatus : b.status = .received := hreceived b (hrows ▸ hb)
      refine ⟨hstatus, ?_⟩
      by_contra hjoined
      rw [hknown.world.status b (List.mem_filter.mp hb).1 hjoined] at hstatus
      cases hstatus
    | updateBatch id data =>
      intro b hb hid hjoined
      obtain ⟨-, hmaterials⟩ := update_joined hknown.world hallowed hcurrent hfresh hb hid hjoined
      refine weightKg_congr ?_
      change data.materialsActual.or b.materialsActual = b.materialsActual
      rw [hmaterials, Option.none_or]
    | _ => trivial
  | _ => trivial

end Current

/-- Along every run in which no batch is written between its read and the write that rests on it, a
batch joins one consolidation at most, from RECEIVED, and every consolidation weighs what its
batches weigh. -/
theorem consolidations_kept (svc : Backend) {w : World} (h : Sound w) (hmarked : Marked w)
    {es : List RaceEvent} (hregular : Along (race svc).step RegularWrite (quiescent w) es)
    (hfresh : writings.Undisturbed (race svc) (quiescent w) es) :
    Along (race svc).step (Good svc) (quiescent w) es := by
  have hread : Along (race svc).step AsRead (quiescent w) es :=
    (steady_writings svc).along (follows_program svc) (fun x e hknown => asRead_of_current hknown)
      ⟨fun j t ht => (by cases ht), hmarked, fun j s hs => by cases hs⟩ hregular hfresh
  exact along_strengthen (fun c e c' hkept hread h => step_kept hkept hread h)
    (fun c e hkept hread => good_of_asRead hkept hread) ⟨fun j t ht => (by cases ht), h⟩ hread

/-! ### Ten kilograms -/

def backend : Backend :=
  ⟨reception, normalLetters, fun cid => "https://grupolivoralabs.com/ipfs/" ++ cid⟩

theorem ten_lt : 10 < 2 ^ 53 := by decide

def tenKilograms : Batch where
  id := "batch"
  status := .received
  collectorId := "collector"
  destinationCenterId := some "center"
  materialsActual := some [("PET", .ofNat 10 ten_lt)]
  hasDiscrepancy := false
  discrepancyNote := none
  consolidatedBatchId := none
  ipfsCid := some "cid"
  txHash := some "hash"
  fiatSettled := false
  fiatSettledAt := none
  createdAt := 0
  updatedAt := 0

def shelf : World := ⟨[], [tenKilograms], [], [], [], ⟨[], []⟩, [], 0⟩

theorem shelf_sound : Sound shelf where
  single := List.nodup_nil
  belongs b hb id hid := by
    rw [List.mem_singleton.mp hb] at hid
    cases hid
  weighs row hrow := absurd hrow List.not_mem_nil

theorem weights_tenKilograms : weights tenKilograms = [10] := by decide +kernel

theorem measured_tenKilograms : Measured [tenKilograms] where
  grams b hb q hq := by
    rw [List.mem_singleton.mp hb, weights_tenKilograms] at hq
    rw [List.mem_singleton.mp hq]
    exact ⟨10000, by norm_num⟩
  moderate := by
    refine ⟨4, ?_, ?_⟩
    · norm_num [togetherKg, weightKg, weights_tenKilograms]
    · norm_num [additions, weights_tenKilograms]

def consolidating (j : ℕ) : RaceEvent :=
  .start j (.endpoint ⟨"center", .centroAcopio⟩ (.consolidate ["batch"]))

def answered (j : ℕ) (text : String) : RaceEvent := .advance j ⟨.done, text, none⟩

/-- `RegularWrite` as a test, of runs that consolidate nothing but the ten kilograms. -/
def regular (c : Race Stage) : RaceEvent → Bool
  | .advance j _ =>
    match pending c j with
    | some (.consolidate _ _ batchIds) => c.world.findBatches batchIds == [tenKilograms]
    | some (.receive _) => false
    | _ => true
  | _ => true

theorem regular_of_test {c : Race Stage} {e : RaceEvent} (h : regular c e = true) :
    RegularWrite c e := by
  cases e with
  | advance j o =>
    intro _ i hi
    simp only [regular, Option.mem_def.mp hi] at h
    cases i with
    | consolidate centerId totalWeight batchIds =>
      rw [beq_iff_eq] at h
      change Measured (c.world.findBatches batchIds)
      rw [h]
      exact measured_tenKilograms
    | receive receipt => cases h
    | _ => trivial
  | _ => trivial

theorem shelf_marked : Marked shelf where
  ids := by decide
  status b hb hjoined := by
    rw [List.mem_singleton.mp hb] at hjoined
    exact absurd rfl hjoined

def once : List RaceEvent := [consolidating 0, answered 0 "", answered 0 "consolidated-1"]

theorem consolidations_kept_once :
    (∃ c, run (race backend).step (quiescent shelf) once = some c ∧
      c.world.consolidated = [⟨"consolidated-1", "center", 10⟩]) ∧
    Along (race backend).step (Good backend) (quiescent shelf) once := by
  have hrun : (run (race backend).step (quiescent shelf) once).map (fun c => c.world.consolidated) =
      some [⟨"consolidated-1", "center", 10⟩] := by decide +kernel
  have htest : Along (race backend).step (fun c e => regular c e = true)
    (quiescent shelf) once := by
    decide +kernel
  exact ⟨Option.map_eq_some_iff.mp hrun,
    consolidations_kept backend shelf_sound shelf_marked
      (along_mono (fun _ _ h => regular_of_test h) htest)
      (by decide +kernel)⟩

def twice : List RaceEvent :=
  [consolidating 0, consolidating 1, answered 0 "", answered 1 "", answered 0 "consolidated-1",
    answered 1 "consolidated-2"]

theorem counted_twice :
    Sound shelf ∧ ∃ c, run (race backend).step (quiescent shelf) twice = some c ∧
    ¬Sound c.world := by
  have hrun : (run (race backend).step (quiescent shelf) twice).map (fun c =>
      (c.world.consolidated, c.world.batches.map Batch.consolidatedBatchId)) =
        some ([⟨"consolidated-1", "center", 10⟩, ⟨"consolidated-2", "center", 10⟩],
          [some "consolidated-2"]) := by
    decide +kernel
  obtain ⟨c, hc, hbooks⟩ := Option.map_eq_some_iff.mp hrun
  obtain ⟨hconsolidated, hbatches⟩ := Prod.mk.inj hbooks
  refine ⟨shelf_sound, c, hc, fun hsound => ?_⟩
  have hweighs :=
    hsound.weighs ⟨"consolidated-1", "center", 10⟩ (by rw [hconsolidated]; exact List.mem_cons_self)
  have hnone : c.world.batches.filter (pointsTo "consolidated-1") = [] := by
    refine List.filter_eq_nil_iff.mpr fun b hb hpoints => ?_
    have hmem : b.consolidatedBatchId ∈ c.world.batches.map Batch.consolidatedBatchId :=
      List.mem_map_of_mem hb
    rw [hbatches, List.mem_singleton, pointsTo_eq_true.mp hpoints] at hmem
    revert hmem
    decide
  rw [hnone] at hweighs
  revert hweighs
  norm_num [togetherKg]

end Livora.BatchConsolidations
