import Livora.ComplaintNumbers
import Livora.TransitionRuns

/-! `createComplaint`: transactions of one database that take a number each. The row of a counter is
locked from its update to the end of the transaction, or from its insertion, and a statement that
needs a row that is locked waits. After an error the database refuses all statements of a
transaction, so that the table scan that follows is refused as well. -/

namespace Livora.ComplaintCounters

open ComplaintNumbers TransitionRuns
open PinVerification (truthy)

structure CreateComplaintDto where
  documentType : String
  documentNumber : String
  fullName : String
  address : String
  phone : String
  email : String
  isMinor : Option Bool
  representativeName : Option String
  representativeDoc : Option String
  goodType : String
  goodDescription : String
  amount : Option ℚ
  claimType : String
  claimDetail : String
  consumerRequest : String
  userId : Option String

structure Complaint where
  correlativeNumber : String
  documentType : String
  documentNumber : String
  fullName : String
  address : String
  phone : String
  email : String
  isMinor : Bool
  representativeName : Option String
  representativeDoc : Option String
  goodType : String
  goodDescription : String
  amount : Option ℚ
  claimType : String
  claimDetail : String
  consumerRequest : String
  subject : String
  description : String
  userId : Option String

def complaintOf (dto : CreateComplaintDto) (authenticatedUserId : Option String)
    (correlativeNumber : String) :
    Complaint where
  correlativeNumber := correlativeNumber
  documentType := dto.documentType
  documentNumber := dto.documentNumber
  fullName := dto.fullName
  address := dto.address
  phone := dto.phone
  email := dto.email
  isMinor := dto.isMinor.getD false
  representativeName := truthy dto.representativeName
  representativeDoc := truthy dto.representativeDoc
  goodType := dto.goodType
  goodDescription := dto.goodDescription
  amount := dto.amount
  claimType := dto.claimType
  claimDetail := dto.claimDetail
  consumerRequest := dto.consumerRequest
  subject := dto.claimType ++ " - " ++ dto.goodType ++ " - " ++ correlativeNumber
  description := dto.claimDetail
  userId := (truthy dto.userId).or (truthy authenticatedUserId)

/-! ### Transactions -/

inductive Phase where
  /-- At the first `UPDATE`. -/
  | update
  /-- At the `INSERT`, since the update has found no row. -/
  | insert
  /-- The `INSERT` has read the maximum. -/
  | inserting (max : ℕ)
  /-- At the second `UPDATE`, with the value of a row that it has inserted itself. -/
  | updateAgain (inserted : Option ℕ)
  /-- At the table scan, since neither update has found a row. -/
  | scanning
  /-- With its number, and the value of the row that it has locked. -/
  | numbered (correlativeNumber : String) (lastValue : Option ℕ)
  | created (correlativeNumber : String) (lastValue : Option ℕ)
  /-- A statement has thrown. -/
  | aborted

structure Transaction where
  dto : CreateComplaintDto
  authenticatedUserId : Option String
  currentYear : ℕ
  phase : Phase

def Transaction.key (t : Transaction) : Key := ⟨t.currentYear, typeOf t.dto.claimType⟩

structure Database where
  /-- In the order of their commits. -/
  complaints : List Complaint
  /-- The values that are committed. -/
  counters : Key → Option ℕ
  /-- The transaction that has inserted or updated a row and has not ended. -/
  locks : Key → Option ℕ
  transactions : ℕ → Option Transaction

namespace Database

variable (d : Database) (j : ℕ) (t : Transaction)

def numbers : List String := d.complaints.map Complaint.correlativeNumber

def move (phase : Phase) : Database :=
  { d with transactions := Function.update d.transactions j (some { t with phase := phase }) }

def lock : Database := { d with locks := Function.update d.locks t.key (some j) }

/-- `SET last_value = last_value + 1 ... RETURNING last_value`, which throws past the integers of
the column. -/
def increment (lastValue : ℕ) : Database :=
  if lastValue + 1 < 2 ^ 31 then
    (d.lock j t).move j t (.numbered (format t.key (lastValue + 1)) (some (lastValue + 1)))
  else d.move j t .aborted

/-- An `UPDATE`: it sees the rows that are committed, and waits for one that is locked. -/
def updateRow (noRows : Phase) : Option Database :=
  match d.counters t.key with
  | none => some (d.move j t noRows)
  | some lastValue => if d.locks t.key = none then some (d.increment j t lastValue) else none

/-- The insertion waits for one of another transaction, and does nothing where there is a row. -/
def insertRow (max : ℕ) : Option Database :=
  match d.counters t.key with
  | some _ => some (d.move j t (.updateAgain none))
  | none =>
    if d.locks t.key = none then some ((d.lock j t).move j t (.updateAgain (some max))) else none

def unlock : Database :=
  { d with
    locks := fun k => if d.locks k = some j then none else d.locks k
    transactions := Function.update d.transactions j none }

def commit (correlativeNumber : String) (lastValue : Option ℕ) : Database :=
  { d with
    complaints := d.complaints ++ [complaintOf t.dto t.authenticatedUserId correlativeNumber]
    counters := lastValue.elim d.counters fun v => Function.update d.counters t.key (some v) }

def advance : Option Database :=
  match t.phase with
  | .update => d.updateRow j t .insert
  | .insert => some (d.move j t ((scanMax t.key d.numbers).elim .aborted .inserting))
  | .inserting max => d.insertRow j t max
  | .updateAgain (some lastValue) => some (d.increment j t lastValue)
  | .updateAgain none => d.updateRow j t .scanning
  | .scanning => some (d.move j t (.numbered (fallbackNumber t.key d.numbers) none))
  | .numbered number lastValue =>
    some (d.move j t (if number ∈ d.numbers then .aborted else .created number lastValue))
  | .created number lastValue => some ((d.commit t number lastValue).unlock j)
  | .aborted => none

end Database

inductive Event where
  | begin (j : ℕ) (dto : CreateComplaintDto) (authenticatedUserId : Option String) (currentYear : ℕ)
  | advance (j : ℕ)
  /-- A statement throws. -/
  | fail (j : ℕ)
  | rollback (j : ℕ)

def step (d : Database) : Event → Option Database
  | .begin j dto authenticatedUserId currentYear =>
    match d.transactions j with
    | none => some (d.move j ⟨dto, authenticatedUserId, currentYear, .update⟩ .update)
    | some _ => none
  | .advance j => (d.transactions j).bind fun t => d.advance j t
  | .fail j => (d.transactions j).map fun t => d.move j t .aborted
  | .rollback j => (d.transactions j).map fun _ => d.unlock j

/-- Complaints that were there before, some of their counters made by the migration. -/
structure Legacy where
  complaints : List Complaint
  wellFormed : ∀ x ∈ complaints.map Complaint.correlativeNumber, WellFormed x
  seeded : Key → Bool

def Legacy.numbers (l : Legacy) : List String := l.complaints.map Complaint.correlativeNumber

def Legacy.database (l : Legacy) : Database where
  complaints := l.complaints
  counters k := if l.seeded k = true ∧
    top k l.numbers < 2 ^ 31 then some (top k l.numbers) else none
  locks _ := none
  transactions _ := none

/-! ### What a transaction knows -/

/-- Of its counter, with the maximum before all transactions and the numbers committed since. -/
def Knows (base count : ℕ) (counter lock : Option ℕ) (j : ℕ) (k : Key) : Phase → Prop
  | .inserting max => counter = none → max = base
  | .updateAgain (some lastValue) => lock = some j ∧ counter = none ∧ lastValue = base
  | .updateAgain none => counter ≠ none
  | .scanning => False
  | .numbered number lastValue => lock = some j ∧ lastValue = some (base + count + 1) ∧
      number = format k (base + count + 1)
  | .created number lastValue => lock = some j ∧ lastValue = some (base + count + 1) ∧
      number = format k (base + count + 1)
  | _ => True

structure Kept (l : Legacy) (added : List String) (d : Database) : Prop where
  numbers : d.numbers = l.numbers ++ added
  formats : ∀ x ∈ added, ∃ k v, x = format k v
  nodup : added.Nodup
  consecutive : ∀ k, sequences k added =
    (List.range (sequences k added).length).map (top k l.numbers + 1 + ·)
  absent : ∀ k, d.counters k = none → sequences k added = []
  counted : ∀ k v, d.counters k = some v → v = top k l.numbers + (sequences k added).length
  knows : ∀ j t, d.transactions j = some t →
    Knows (top t.key l.numbers) (sequences t.key added).length (d.counters t.key)
      (d.locks t.key) j t.key t.phase

variable {l : Legacy} {added : List String} {d d' : Database} {j : ℕ} {t : Transaction} {k : Key}

theorem knows_other {base count count' : ℕ} {counter counter' lock lock' : Option ℕ} {p : Phase}
    (h : Knows base count counter lock j k p)
    (hlock : lock = some j → lock' = some j ∧ count' = count ∧ counter' = counter)
    (hcounter : counter' = none → counter = none) : Knows base count' counter' lock' j k p := by
  cases p with
  | inserting max => exact fun hnone => h (hcounter hnone)
  | updateAgain inserted =>
    cases inserted with
    | none => exact fun hnone => h (hcounter hnone)
    | some lastValue =>
      obtain ⟨hheld, hnone, hbase⟩ := h
      obtain ⟨hheld', -, hsame⟩ := hlock hheld
      exact ⟨hheld', hsame.trans hnone, hbase⟩
  | scanning => exact h
  | numbered number lastValue =>
    obtain ⟨hheld, hvalue, hnumber⟩ := h
    obtain ⟨hheld', rfl, -⟩ := hlock hheld
    exact ⟨hheld', hvalue, hnumber⟩
  | created number lastValue =>
    obtain ⟨hheld, hvalue, hnumber⟩ := h
    obtain ⟨hheld', rfl, -⟩ := hlock hheld
    exact ⟨hheld', hvalue, hnumber⟩
  | _ => trivial

theorem transactions_move {p : Phase} {i : ℕ} {u : Transaction}
    (h : (d.move j t p).transactions i = some u) :
    i = j ∧ u = { t with phase := p } ∨ i ≠ j ∧ d.transactions i = some u := by
  change Function.update d.transactions j _ i = some u at h
  by_cases hij : i = j
  · subst hij
    rw [Function.update_self] at h
    exact .inl ⟨rfl, (Option.some.inj h).symm⟩
  · rw [Function.update_of_ne hij] at h
    exact .inr ⟨hij, h⟩

theorem kept_move (h : Kept l added d) {p : Phase}
    (hp : Knows (top t.key l.numbers) (sequences t.key added).length (d.counters t.key)
      (d.locks t.key) j t.key p) :
    Kept l added (d.move j t p) where
  numbers := h.numbers
  formats := h.formats
  nodup := h.nodup
  consecutive := h.consecutive
  absent := h.absent
  counted := h.counted
  knows i u hu := by
    obtain ⟨rfl, rfl⟩ | ⟨-, hu⟩ := transactions_move hu
    · exact hp
    · exact h.knows i u hu

theorem kept_lock (h : Kept l added d) (hfree : d.locks t.key = none ∨ d.locks t.key = some j) :
    Kept l added (d.lock j t) where
  numbers := h.numbers
  formats := h.formats
  nodup := h.nodup
  consecutive := h.consecutive
  absent := h.absent
  counted := h.counted
  knows i u hu := by
    refine knows_other (h.knows i u hu) (fun hlock => ⟨?_, rfl, rfl⟩) id
    change Function.update d.locks t.key (some j) u.key = some i
    by_cases hk : u.key = t.key
    · rw [hk] at hlock ⊢
      rw [Function.update_self]
      rcases hfree with hnone | hown
      · rw [hnone] at hlock
        cases hlock
      · rw [← hlock, hown]
    · rw [Function.update_of_ne hk]
      exact hlock

theorem locks_lock : (d.lock j t).locks t.key = some j := Function.update_self _ _ _

theorem transactions_unlock {i : ℕ} {u : Transaction} (h : (d.unlock j).transactions i = some u) :
    i ≠ j ∧ d.transactions i = some u := by
  change Function.update d.transactions j none i = some u at h
  by_cases hij : i = j
  · subst hij
    rw [Function.update_self] at h
    cases h
  · rw [Function.update_of_ne hij] at h
    exact ⟨hij, h⟩

theorem locks_unlock {i : ℕ} (hij : i ≠ j) (h : d.locks k = some i) :
    (d.unlock j).locks k = some i := by
  change (if d.locks k = some j then none else d.locks k) = some i
  rw [h, if_neg fun hsame => hij (Option.some.inj hsame)]

theorem kept_unlock (h : Kept l added d) : Kept l added (d.unlock j) where
  numbers := h.numbers
  formats := h.formats
  nodup := h.nodup
  consecutive := h.consecutive
  absent := h.absent
  counted := h.counted
  knows i u hu := by
    obtain ⟨hij, hu⟩ := transactions_unlock hu
    exact knows_other (h.knows i u hu) (fun hlock => ⟨locks_unlock hij hlock, rfl, rfl⟩) id

theorem kept_increment (h : Kept l added d)
    (hfree : d.locks t.key = none ∨ d.locks t.key = some j) {v : ℕ}
    (hv : v = top t.key l.numbers + (sequences t.key added).length) :
    Kept l added (d.increment j t v) := by
  unfold Database.increment
  split
  · subst hv
    exact kept_move (kept_lock h hfree) ⟨locks_lock, rfl, rfl⟩
  · exact kept_move h trivial

theorem kept_updateRow (h : Kept l added d) {noRows : Phase}
    (hnoRows : d.counters t.key = none → Knows (top t.key l.numbers) (sequences t.key added).length
      (d.counters t.key) (d.locks t.key) j t.key noRows) (hd : d.updateRow j t noRows = some d') :
    Kept l added d' := by
  unfold Database.updateRow at hd
  cases hcounter : d.counters t.key with
  | none =>
    simp only [hcounter] at hd
    cases hd
    exact kept_move h (hnoRows hcounter)
  | some v =>
    simp only [hcounter] at hd
    obtain ⟨hfree, hd⟩ := Option.ite_none_right_eq_some.mp hd
    cases hd
    exact kept_increment h (.inl hfree) (h.counted _ _ hcounter)

theorem wellFormed (h : Kept l added d) : ∀ x ∈ d.numbers, WellFormed x := by
  intro x hx
  rw [h.numbers] at hx
  rcases List.mem_append.mp hx with hx | hx
  · exact l.wellFormed x hx
  · obtain ⟨k, v, rfl⟩ := h.formats x hx
    exact ⟨k, _, isNumber_format k v⟩

theorem sequences_numbers (h : Kept l added d) (k : Key) :
    sequences k d.numbers = sequences k l.numbers ++ sequences k added := by
  rw [h.numbers, sequences_append]

theorem kept_scan (h : Kept l added d) :
    Kept l added (d.move j t ((scanMax t.key d.numbers).elim .aborted .inserting)) := by
  refine kept_move h ?_
  rw [scanMax_eq (wellFormed h)]
  split
  · intro hnone
    rw [top, sequences_numbers h, h.absent _ hnone, List.append_nil]
    rfl
  · trivial

theorem kept_insertRow (h : Kept l added d) {m : ℕ}
    (hm : d.counters t.key = none → m = top t.key l.numbers)
    (hd : d.insertRow j t m = some d') : Kept l added d' := by
  unfold Database.insertRow at hd
  cases hcounter : d.counters t.key with
  | some v =>
    simp only [hcounter] at hd
    cases hd
    refine kept_move h ?_
    rw [hcounter]
    exact Option.some_ne_none v
  | none =>
    simp only [hcounter] at hd
    obtain ⟨hfree, hd⟩ := Option.ite_none_right_eq_some.mp hd
    cases hd
    exact kept_move (kept_lock h (.inl hfree)) ⟨locks_lock, hcounter, hm hcounter⟩

/-! ### Commits -/

theorem sequences_singleton {v : ℕ} {k' : Key} :
    sequences k [format k' v] = if k' = k then [v] else [] := by
  rw [sequences, List.filterMap_cons, sequenceOf_format]
  split_ifs <;> rfl

theorem not_mem_added (h : Kept l added d) (k : Key) :
    format k (top k l.numbers + (sequences k added).length + 1) ∉ added := by
  intro hmem
  have hsequence : top k l.numbers + (sequences k added).length + 1 ∈ sequences k added :=
    List.mem_filterMap.mpr ⟨_, hmem, by rw [sequenceOf_format, if_pos rfl]⟩
  rw [h.consecutive] at hsequence
  obtain ⟨i, hi, hsame⟩ := List.mem_map.mp hsequence
  have hlt := List.mem_range.mp hi
  rw [List.length_map, List.length_range] at hsame
  omega

theorem kept_commit (h : Kept l added d) (ht : d.transactions j = some t) {number : String}
    {v : Option ℕ} (hphase : t.phase = .created number v) :
    Kept l (added ++ [number]) ((d.commit t number v).unlock j) := by
  have hknows := h.knows j t ht
  rw [hphase] at hknows
  obtain ⟨hheld, rfl, rfl⟩ := hknows
  have hcounters
    (k : Key) : ((d.commit t
      (format t.key (top t.key l.numbers + (sequences t.key added).length + 1))
      (some (top t.key l.numbers + (sequences t.key added).length + 1))).unlock j).counters k =
      if k = t.key then some (top t.key l.numbers + (sequences t.key added).length +
        1) else d.counters k :=
    Function.update_apply _ _ _ _
  have hsequences (k : Key) : sequences k (added ++
      [format t.key (top t.key l.numbers + (sequences t.key added).length + 1)]) =
        sequences k added ++
        if t.key = k then [top t.key l.numbers + (sequences t.key added).length + 1] else [] := by
    rw [sequences_append, sequences_singleton]
  have hsame {k : Key} (hk : k ≠ t.key) : sequences k (added ++
      [format t.key (top t.key l.numbers + (sequences t.key added).length + 1)]) =
        sequences k added := by
    rw [hsequences, if_neg fun he => hk he.symm, List.append_nil]
  refine ⟨?_, ?_, ?_, ?_, ?_, ?_, ?_⟩
  · change (d.complaints ++ [_]).map Complaint.correlativeNumber = _
    rw [List.map_append, ← List.append_assoc]
    exact congrArg (· ++ _) h.numbers
  · intro x hx
    rcases List.mem_append.mp hx with hx | hx
    · exact h.formats x hx
    · exact ⟨_, _, List.mem_singleton.mp hx⟩
  · exact List.nodup_append'.mpr ⟨h.nodup, List.nodup_singleton _,
      fun x hx hx' => not_mem_added h t.key (List.mem_singleton.mp hx' ▸ hx)⟩
  · intro k
    by_cases hk : k = t.key
    · subst hk
      rw [hsequences, if_pos rfl, List.length_append, List.length_singleton, List.range_succ,
        List.map_append, ← h.consecutive, List.map_singleton]
      simp only [List.append_cancel_left_eq, List.cons.injEq, and_true]
      omega
    · rw [hsame hk]
      exact h.consecutive k
  · intro k hnone
    rw [hcounters] at hnone
    split at hnone
    · cases hnone
    · rename_i hk
      rw [hsame hk]
      exact h.absent k hnone
  · intro k v hv
    rw [hcounters] at hv
    by_cases hk : k = t.key
    · subst hk
      rw [if_pos rfl] at hv
      cases hv
      rw [hsequences, if_pos rfl, List.length_append, List.length_singleton]
      omega
    · rw [if_neg hk] at hv
      rw [hsame hk]
      exact h.counted k v hv
  · intro i u hu
    obtain ⟨hij, hu⟩ := transactions_unlock hu
    refine knows_other (h.knows i u hu) (fun hlock => ?_) fun hnone => ?_
    · have hk : u.key ≠ t.key := fun hk => hij <| by
        rw [hk, hheld] at hlock
        exact (Option.some.inj hlock).symm
      refine ⟨locks_unlock (d := d.commit t _ _) hij hlock, by rw [hsame hk], ?_⟩
      rw [hcounters, if_neg hk]
    · rw [hcounters] at hnone
      split at hnone
      · cases hnone
      · exact hnone

/-! ### Runs -/

theorem kept_step (h : Kept l added d) {e : Event} (hd : step d e = some d') :
    ∃ added', Kept l added' d' := by
  cases e with
  | begin j dto user year =>
    simp only [step] at hd
    split at hd
    · cases hd
      exact ⟨added, kept_move (p := .update) h trivial⟩
    · cases hd
  | fail j =>
    obtain ⟨t, -, rfl⟩ := Option.map_eq_some_iff.mp hd
    exact ⟨added, kept_move h trivial⟩
  | rollback j =>
    obtain ⟨t, -, rfl⟩ := Option.map_eq_some_iff.mp hd
    exact ⟨added, kept_unlock h⟩
  | advance j =>
    obtain ⟨t, ht, hd⟩ := Option.bind_eq_some_iff.mp hd
    have hknows := h.knows j t ht
    unfold Database.advance at hd
    cases hphase : t.phase with
    | update =>
      rw [hphase] at hd
      refine ⟨added, kept_updateRow h (fun _ => ?_) hd⟩
      trivial
    | insert =>
      rw [hphase] at hd
      cases hd
      exact ⟨added, kept_scan h⟩
    | inserting m =>
      rw [hphase] at hd hknows
      exact ⟨added, kept_insertRow h hknows hd⟩
    | updateAgain inserted =>
      rw [hphase] at hd hknows
      cases inserted with
      | none => exact ⟨added, kept_updateRow h (fun hnone => absurd hnone hknows) hd⟩
      | some v =>
        obtain ⟨hheld, hnone, rfl⟩ := hknows
        cases hd
        refine ⟨added, kept_increment h (.inr hheld) ?_⟩
        rw [h.absent _ hnone, List.length_nil, Nat.add_zero]
    | scanning =>
      rw [hphase] at hknows
      exact hknows.elim
    | numbered number v =>
      rw [hphase] at hd hknows
      cases hd
      refine ⟨added, kept_move h ?_⟩
      split
      · trivial
      · exact hknows
    | created number v =>
      rw [hphase] at hd
      cases hd
      exact ⟨_, kept_commit h ht hphase⟩
    | aborted =>
      rw [hphase] at hd
      cases hd

theorem kept_legacy (l : Legacy) : Kept l [] l.database where
  numbers := (List.append_nil _).symm
  formats _ hx := by cases hx
  nodup := List.nodup_nil
  consecutive _ := rfl
  absent _ _ := rfl
  counted k v hv := by
    obtain ⟨-, hv⟩ := Option.ite_none_right_eq_some.mp hv
    exact (Option.some.inj hv).symm
  knows j t ht := by cases ht

theorem kept_run {es : List Event} (h : run step l.database es = some d) :
    ∃ added, Kept l added d :=
  run_preserves (I := fun d => ∃ added, Kept l added d) (fun _ _ _ ⟨_, hkept⟩ hd =>
    kept_step hkept hd)
    ⟨[], kept_legacy l⟩ h

/-! ### One transaction after the others -/

theorem top_numbers (h : Kept l added d) (k : Key) :
    top k d.numbers = top k l.numbers + (sequences k added).length := by
  have hmem {n : ℕ} : n ∈ sequences k d.numbers ↔ n ∈ sequences k l.numbers ∨
      ∃ i < (sequences k added).length, top k l.numbers + 1 + i = n := by
    rw [sequences_numbers h, List.mem_append, h.consecutive]
    simp
  apply le_antisymm
  · refine Nat.lt_succ_iff.mp ((foldr_max_lt_iff (Nat.succ_pos _)).mpr fun n hn => ?_)
    rcases hmem.mp hn with hn | ⟨i, hi, rfl⟩
    · have := le_top hn
      omega
    · omega
  · by_cases hzero : (sequences k added).length = 0
    · rw [hzero, Nat.add_zero, top, top, sequences_numbers h, List.length_eq_zero_iff.mp hzero,
        List.append_nil]
    · refine le_top (hmem.mpr (.inr ⟨(sequences k added).length - 1, by omega, by omega⟩))

theorem advance_update {v : ℕ} (ht : d.transactions j = some t) (hphase : t.phase = .update)
    (hcounter : d.counters t.key = some v) (hfree : d.locks t.key = none) :
    step d (.advance j) = some (d.increment j t v) := by
  simp only [step, ht, Option.bind_some, Database.advance, hphase, Database.updateRow, hcounter,
    hfree, if_true]

theorem advance_noRow (ht : d.transactions j = some t) (hphase : t.phase = .update)
    (hcounter : d.counters t.key = none) : step d (.advance j) = some (d.move j t .insert) := by
  simp only [step, ht, Option.bind_some, Database.advance, hphase, Database.updateRow, hcounter]

theorem advance_scan {m : ℕ} (ht : d.transactions j = some t) (hphase : t.phase = .insert)
    (hm : scanMax t.key d.numbers = some m) :
    step d (.advance j) = some (d.move j t (.inserting m)) := by
  simp only [step, ht, Option.bind_some, Database.advance, hphase, hm, Option.elim_some]

theorem advance_insert {m : ℕ} (ht : d.transactions j = some t) (hphase : t.phase = .inserting m)
    (hcounter : d.counters t.key = none) (hfree : d.locks t.key = none) :
    step d (.advance j) = some ((d.lock j t).move j t (.updateAgain (some m))) := by
  simp only [step, ht, Option.bind_some, Database.advance, hphase, Database.insertRow, hcounter,
    hfree, if_true]

theorem advance_again {m : ℕ} (ht : d.transactions j = some t)
    (hphase : t.phase = .updateAgain (some m)) :
    step d (.advance j) = some (d.increment j t m) := by
  simp only [step, ht, Option.bind_some, Database.advance, hphase]

theorem transactions_self {p : Phase} :
    (d.move j t p).transactions j = some { t with phase := p } :=
  Function.update_self _ _ _

theorem increment_numbered {v : ℕ} (h : v + 1 < 2 ^ 31) :
    (d.increment j t v).transactions j =
      some { t with phase := .numbered (format t.key (v + 1)) (some (v + 1)) } := by
  rw [Database.increment, if_pos h]
  exact transactions_self

theorem numbered_alone (h : Kept l added d) (hj : d.transactions j = none)
    (dto : CreateComplaintDto)
    (user : Option String) (year : ℕ) (hk : k = ⟨year, typeOf dto.claimType⟩)
    (hfree : d.locks k = none) (hlt : top k d.numbers + 1 < 2 ^ 31) : ∃ n d' t,
      run step d (.begin j dto user year :: List.replicate n (.advance j)) = some d' ∧
        d'.transactions j = some t ∧
          t.phase = .numbered (fallbackNumber k d.numbers) (some (top k d.numbers + 1)) := by
  subst hk
  have hbegin : step d (.begin j dto user year) =
      some (d.move j ⟨dto, user, year, .update⟩ .update) := by
    simp only [step, hj]
  have htop := top_numbers h ⟨year, typeOf dto.claimType⟩
  rw [fallbackNumber_eq (wellFormed h) (by omega)]
  cases hcounter : d.counters ⟨year, typeOf dto.claimType⟩ with
  | some v =>
    have hv := h.counted _ _ hcounter
    obtain rfl : v = top ⟨year, typeOf dto.claimType⟩ d.numbers := by omega
    exact ⟨1, _, _, run_cons.mpr ⟨_, hbegin, run_cons.mpr
      ⟨_, advance_update transactions_self rfl hcounter hfree, rfl⟩⟩, increment_numbered hlt, rfl⟩
  | none =>
    have hscan : scanMax ⟨year, typeOf dto.claimType⟩ d.numbers =
        some (top ⟨year, typeOf dto.claimType⟩ d.numbers) := by
      rw [scanMax_eq (wellFormed h), if_pos (by omega)]
    exact ⟨4, _, _,
      run_cons.mpr ⟨_, hbegin, run_cons.mpr ⟨_, advance_noRow transactions_self rfl hcounter,
      run_cons.mpr ⟨_, advance_scan transactions_self rfl hscan, run_cons.mpr
        ⟨_, advance_insert transactions_self rfl hcounter hfree, run_cons.mpr
          ⟨_, advance_again transactions_self rfl, rfl⟩⟩⟩⟩⟩, increment_numbered hlt, rfl⟩

/-- In every run of transactions the numbers that are committed follow the greatest one there was of
their type and year, one by one; a number tells its type, sequence and year; and a transaction that
runs alone takes the number of the table scan, while the integers of the counter reach that far. -/
theorem numbers_consecutive (l : Legacy) {es : List Event} (h : run step l.database es = some d) :
    (∃ added, d.numbers = l.numbers ++ added ∧ added.Nodup ∧ (∀ x ∈ added, x ∉ l.numbers) ∧
      (∀ x ∈ added, ∃ k v, x = format k v) ∧ ∀ k, sequences k added =
        (List.range (sequences k added).length).map (top k l.numbers + 1 + ·)) ∧
    (∀ k k' m n, format k m = format k' n → k = k' ∧ m = n) ∧
    ∀ j dto user year, d.transactions j = none → d.locks ⟨year, typeOf dto.claimType⟩ = none →
      top ⟨year, typeOf dto.claimType⟩ d.numbers + 1 < 2 ^ 31 → ∃ n d' t,
        run step d (.begin j dto user year :: List.replicate n (.advance j)) = some d' ∧
          d'.transactions j = some t ∧
            t.phase = .numbered (fallbackNumber ⟨year, typeOf dto.claimType⟩ d.numbers)
              (some (top ⟨year, typeOf dto.claimType⟩ d.numbers + 1)) := by
  obtain ⟨added, hkept⟩ := kept_run h
  refine ⟨⟨added, hkept.numbers, hkept.nodup, fun x hx hold => ?_, hkept.formats,
    hkept.consecutive⟩, fun k k' m n hsame => format_inj hsame,
    fun j dto user year hj hfree hlt => numbered_alone hkept hj dto user year rfl hfree hlt⟩
  obtain ⟨k, v, rfl⟩ := hkept.formats x hx
  have hsequence : sequenceOf k (format k v) = some v := by rw [sequenceOf_format, if_pos rfl]
  have hadded : v ∈ sequences k added := List.mem_filterMap.mpr ⟨_, hx, hsequence⟩
  have hlegacy : v ∈ sequences k l.numbers := List.mem_filterMap.mpr ⟨_, hold, hsequence⟩
  have hle := le_top hlegacy
  rw [hkept.consecutive] at hadded
  obtain ⟨i, -, rfl⟩ := List.mem_map.mp hadded
  omega

/-! ### The end of the integers -/

def reclamo : CreateComplaintDto :=
  ⟨"DNI", "12345678", "Ana Flores", "Lima", "999888777", "ana@correo.pe", none, none, none,
    "SERVICIO", "recojo", none, "RECLAMO", "demora", "respuesta", none⟩

def reclamoKey : Key := ⟨2026, .r⟩

theorem wellFormed_format (sequence : ℕ) :
    ∀ x ∈ [complaintOf reclamo none (format reclamoKey sequence)].map Complaint.correlativeNumber,
      WellFormed x := by
  intro x hx
  obtain rfl := List.mem_singleton.mp hx
  exact ⟨_, _, isNumber_format _ _⟩

/-- One complaint of the key, with a sequence. -/
def legacyOf (sequence : ℕ) : Legacy where
  complaints := [complaintOf reclamo none (format reclamoKey sequence)]
  wellFormed := wellFormed_format sequence
  seeded _ := false

/-- Two transactions at once, of which the second waits for the insertion of the first. -/
def bothAtOnce : List Event :=
  [.begin 0 reclamo none 2026, .begin 1 reclamo none 2026, .advance 0, .advance 1, .advance 0,
    .advance 1,
    .advance 0, .advance 0, .advance 0, .advance 0, .advance 1, .advance 1, .advance 1, .advance 1]

theorem numbers_consecutive_twice : ∃ d, run step (legacyOf 7).database bothAtOnce = some d ∧
    d.numbers = ["R-00007-2026", "R-00008-2026", "R-00009-2026"] ∧
    ∃ added, d.numbers = (legacyOf 7).numbers ++ added ∧ added.Nodup := by
  have hnumbers : (run step (legacyOf 7).database bothAtOnce).map Database.numbers =
      some ["R-00007-2026", "R-00008-2026", "R-00009-2026"] := by decide +kernel
  obtain ⟨d, hd, hlist⟩ := Option.map_eq_some_iff.mp hnumbers
  obtain ⟨⟨added, hadded, hnodup, -⟩, -⟩ := numbers_consecutive (legacyOf 7) hd
  exact ⟨d, hd, hlist, added, hadded, hnodup⟩

/-- A transaction that runs alone for so many statements. -/
def alone (n : ℕ) : List Event := .begin 0 reclamo none 2026 :: List.replicate n (.advance 0)

def isNumbered : Phase → Bool
  | .numbered _ _ => true
  | _ => false

/-- After the last integer of the column the table scan has a number, and a transaction has none. -/
theorem scan_beyond_counter :
    fallbackNumber reclamoKey (legacyOf 2147483647).numbers = "R-2147483648-2026" ∧
      ∀ n d t, run step (legacyOf 2147483647).database (alone n) = some d →
        d.transactions 0 = some t →
        isNumbered t.phase = false := by
  refine ⟨?_, fun n d t hd ht => ?_⟩
  · have hwf : ∀ x ∈ (legacyOf 2147483647).numbers, WellFormed x := (legacyOf 2147483647).wellFormed
    have htop : top reclamoKey (legacyOf 2147483647).numbers = 2147483647 := by decide +kernel
    rw [fallbackNumber_eq hwf (by rw [htop]; decide), htop]
    decide +kernel
  · have hfew : ∀ m < 5, ((run step (legacyOf 2147483647).database (alone m)).bind
        (·.transactions 0)).map (fun t => isNumbered t.phase) = some false := by decide +kernel
    by_cases hn : n < 5
    · have hnumbered := hfew n hn
      rw [hd, Option.bind_some, ht] at hnumbered
      exact Option.some.inj hnumbered
    · have hstuck : run step (legacyOf 2147483647).database (alone 5) = none := by decide +kernel
      have hsplit : alone n = alone 5 ++ List.replicate (n - 5) (.advance 0) := by
        rw [alone, alone, List.cons_append, ← List.replicate_add]
        congr 2
        omega
      rw [hsplit] at hd
      obtain ⟨d₅, hd₅, -⟩ := run_append.mp hd
      rw [hstuck] at hd₅
      cases hd₅

end Livora.ComplaintCounters
