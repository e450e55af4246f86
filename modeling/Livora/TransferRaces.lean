import Livora.StockRaces

/-! Transfers to companies, accepted and received in any order of the calls. An acceptance reads the
status before its transaction and writes it by the id alone, and the certificate comes after the
delivery has been committed. The stock gives what the transfer says once, and each delivery has its
certificate, along every run in which an acceptance still finds its transfer REQUESTED and no call
is cut off between a delivery and its certificate. -/

namespace Livora.TransferRaces

open TransitionRuns EffectPrograms ProgramPools ProgramPools.System StockBooks
open StockMoves StockServices StockStages CenterBooks StockRaces
open StoreBooks (Failure)
open PinVerification (Delivery)

variable {t : Letters} {w w' v : World} {st : ℕ → Option Stage} {j : ℕ} {s : Stage}
  {i : Op} {o : Outcome} {id centerId : String}

/-! ### Transfers, their movements and their certificates -/

def statusOf (w : World) (id : String) : Option TransferStatus :=
  (w.findTransfer id).map B2bTransfer.status

def movementsOf (w : World) (id : String) : List InventoryMovement :=
  w.stock.movements.filter fun m => m.origin == .transfer id

def certificatesOf (w : World) (id : String) : List Certificate :=
  w.certificates.filter fun row => row.transferId == id

/-- What a transfer says has been taken out: nothing while it is REQUESTED. -/
def recorded (id : String) : Option B2bTransfer → List InventoryMovement
  | some row =>
    if row.status = .requested then [] else outward row.centerId (.transfer id) row.materials
  | none => []

theorem id_of_findTransfer {row : B2bTransfer} (h : w.findTransfer id = some row) :
    row.id = id := by
  simpa using List.find?_some h

theorem find_of_mem_nodup (h : (w.transfers.map B2bTransfer.id).Nodup) {row : B2bTransfer}
    (hrow : row ∈ w.transfers) : w.findTransfer row.id = some row := by
  unfold World.findTransfer
  generalize w.transfers = rows at h hrow ⊢
  induction rows with
  | nil => cases hrow
  | cons head rows ih =>
    obtain ⟨hhead, hrest⟩ := List.nodup_cons.mp (List.map_cons ▸ h)
    rw [List.find?_cons]
    rcases List.mem_cons.mp hrow with rfl | hrow
    · rw [beq_self_eq_true]
    · have hne : (head.id == row.id) = false := by
        rw [beq_eq_false_iff_ne]
        exact fun he => hhead (List.mem_map.mpr ⟨row, hrow, he.symm⟩)
      rw [hne]
      exact ih hrest hrow

theorem findTransfer_map {f : B2bTransfer → B2bTransfer} (hf : ∀ row, (f row).id = row.id)
    (hw : w'.transfers = w.transfers.map f) (id : String) :
    w'.findTransfer id = (w.findTransfer id).map f := by
  unfold World.findTransfer
  rw [hw, List.find?_map]
  congr 2
  funext row
  simp [hf]

theorem findTransfer_replace {f : B2bTransfer → B2bTransfer} (hf : ∀ row, (f row).id = row.id)
    (hother : ∀ row, row.id ≠ id → f row = row) (hw : w'.transfers = w.transfers.map f)
    (x : String) :
    w'.findTransfer x = if x = id then (w.findTransfer id).map f else w.findTransfer x := by
  rw [findTransfer_map hf hw]
  split
  · rename_i hx
    rw [hx]
  · rename_i hx
    cases hrow : w.findTransfer x with
    | none => rfl
    | some row =>
      rw [Option.map_some, hother row fun he => hx ((id_of_findTransfer hrow).symm.trans he)]

theorem findTransfer_append {row : B2bTransfer} (hw : w'.transfers = w.transfers ++ [row])
    (id : String) : w'.findTransfer id =
      (w.findTransfer id).or (if row.id = id then some row else none) := by
  unfold World.findTransfer
  rw [hw, List.find?_append]
  congr 1
  rw [List.find?_singleton]
  simp

theorem findTransfer_congr (h : w'.transfers = w.transfers) (id : String) :
    w'.findTransfer id = w.findTransfer id := by
  unfold World.findTransfer
  rw [h]

theorem movementsOf_outward (w : World) {stock : Stock} {materials : List Weighed}
    (hstock : stock.movements = w.stock.movements ++ outward centerId (.transfer id) materials)
    (hv : v.stock = stock) (x : String) : movementsOf v x =
      movementsOf w x ++ if x = id then outward centerId (.transfer id) materials else [] := by
  unfold movementsOf
  rw [hv, hstock, List.filter_append]
  congr 1
  split
  · rename_i hx
    subst hx
    refine List.filter_eq_self.mpr fun m hm => ?_
    obtain ⟨entry, -, rfl⟩ := List.mem_map.mp hm
    exact beq_self_eq_true _
  · rename_i hx
    refine List.filter_eq_nil_iff.mpr fun m hm => ?_
    obtain ⟨entry, -, rfl⟩ := List.mem_map.mp hm
    rw [beq_iff_eq, Origin.transfer.injEq]
    exact fun he => hx he.symm

theorem movementsOf_others {new : List InventoryMovement}
    (hv : v.stock.movements = w.stock.movements ++ new)
    (hnew : ∀ m ∈ new, ∀ id, m.origin ≠ .transfer id)
    (x : String) : movementsOf v x = movementsOf w x := by
  have hnil : new.filter (fun m => m.origin == .transfer x) = [] :=
    List.filter_eq_nil_iff.mpr fun m hm => by simp [hnew m hm x]
  unfold movementsOf
  rw [hv, List.filter_append, hnil, List.append_nil]

theorem movementsOf_congr (h : v.stock = w.stock) (x : String) :
    movementsOf v x = movementsOf w x := by
  unfold movementsOf
  rw [h]

/-! ### Order -/

/-- What holds of the books, where so many calls have yet to make a certificate. -/
structure Orderly (w : World) (debts : ℕ → Option String) : Prop where
  keys : (w.transfers.map B2bTransfer.id).Nodup
  taken : ∀ id, movementsOf w id = recorded id (w.findTransfer id)
  debt : ∀ j id, debts j = some id → statusOf w id = some .delivered ∧ certificatesOf w id = []
  single : ∀ j k id, debts j = some id → debts k = some id → j = k
  certified : ∀ id, statusOf w id = some .delivered →
    (certificatesOf w id).length = 1 ∨ ∃ j, debts j = some id
  early : ∀ id, statusOf w id ≠ some .delivered → certificatesOf w id = []

variable {debts : ℕ → Option String}

theorem certificatesOf_congr (h : v.certificates = w.certificates) (x : String) :
    certificatesOf v x = certificatesOf w x := by
  unfold certificatesOf
  rw [h]

theorem statusOf_congr (h : v.transfers = w.transfers) (x : String) :
    statusOf v x = statusOf w x := by
  unfold statusOf
  rw [findTransfer_congr h]

theorem Orderly.keep (h : Orderly w debts) (htransfers : v.transfers = w.transfers)
    (hcertificates : v.certificates = w.certificates)
    (hmovements : ∀ id, movementsOf v id = movementsOf w id) : Orderly v debts := by
  refine ⟨htransfers ▸ h.keys, fun id => ?_, fun j id hj => ?_, h.single, fun id hid => ?_,
    fun id hid => ?_⟩
  · rw [hmovements, findTransfer_congr htransfers]
    exact h.taken id
  · rw [statusOf_congr htransfers, certificatesOf_congr hcertificates]
    exact h.debt j id hj
  · rw [certificatesOf_congr hcertificates]
    rw [statusOf_congr htransfers] at hid
    exact h.certified id hid
  · rw [certificatesOf_congr hcertificates]
    rw [statusOf_congr htransfers] at hid
    exact h.early id hid

theorem findTransfer_none_iff : w.findTransfer id = none ↔ id ∉ w.transfers.map B2bTransfer.id := by
  unfold World.findTransfer
  rw [List.find?_eq_none, List.mem_map]
  simp

theorem Orderly.insert (h : Orderly w debts) {row : B2bTransfer}
    (hfresh : w.findTransfer row.id = none)
    (hstatus : row.status ≠ .delivered) (htransfers : v.transfers = w.transfers ++ [row])
    (hcertificates : v.certificates = w.certificates)
    (hmovements : ∀ id, movementsOf v id =
      movementsOf w id ++ if id =
        row.id then recorded id (some row) else []) : Orderly v debts := by
  have hfind (id : String) : v.findTransfer id =
      if id = row.id then some row else w.findTransfer id := by
    rw [findTransfer_append htransfers]
    by_cases hid : id = row.id
    · rw [hid, hfresh, if_pos rfl]
      simp
    · rw [if_neg fun he => hid he.symm, if_neg hid, Option.or_none]
  have hstatuses (id : String) : statusOf v id = some .delivered ↔
      statusOf w id = some .delivered := by
    unfold statusOf
    rw [hfind]
    split
    · rename_i hid
      rw [hid, hfresh]
      simp [hstatus]
    · rfl
  refine ⟨?_, fun id => ?_, fun j id hj => ?_, h.single, fun id hid => ?_, fun id hid => ?_⟩
  · rw [htransfers, List.map_append, List.nodup_append]
    refine ⟨h.keys, List.nodup_singleton _, fun x hx y hy he => ?_⟩
    rw [List.map_singleton, List.mem_singleton] at hy
    exact findTransfer_none_iff.mp hfresh (hy ▸ he ▸ hx)
  · rw [hmovements, hfind, h.taken]
    split
    · rename_i hid
      rw [hid, hfresh]
      rfl
    · exact List.append_nil _
  · rw [hstatuses, certificatesOf_congr hcertificates]
    exact h.debt j id hj
  · rw [certificatesOf_congr hcertificates]
    exact h.certified id ((hstatuses id).mp hid)
  · rw [certificatesOf_congr hcertificates]
    exact h.early id fun hold => hid ((hstatuses id).mpr hold)

/-- The row of a transfer that has not been delivered is replaced, and says what was taken out. -/
structure Replaced (w v : World) (id : String) (row row' : B2bTransfer) : Prop where
  found : w.findTransfer id = some row
  undelivered : row.status ≠ .delivered
  keys : v.transfers.map B2bTransfer.id = w.transfers.map B2bTransfer.id
  find : ∀ x, v.findTransfer x = if x = id then some row' else w.findTransfer x
  movements : ∀ x, movementsOf v x = if x = id then recorded id (some row') else movementsOf w x
  certificates : v.certificates = w.certificates

section Replacing

variable {row row' : B2bTransfer}

theorem Replaced.status (h : Replaced w v id row row') (x : String) :
    statusOf v x = if x = id then some row'.status else statusOf w x := by
  unfold statusOf
  rw [h.find]
  split <;> rfl

theorem Replaced.taken (h : Replaced w v id row row') (hw : Orderly w debts) (x : String) :
    movementsOf v x = recorded x (v.findTransfer x) := by
  rw [h.movements, h.find]
  split
  · rename_i hx
    rw [hx]
  · exact hw.taken x

theorem Replaced.not_owed (h : Replaced w v id row row') (hw : Orderly w debts) (k : ℕ) :
    debts k ≠ some id := by
  intro hk
  have hstatus := (hw.debt k id hk).1
  rw [statusOf, h.found] at hstatus
  exact h.undelivered (Option.some.inj hstatus)

theorem Replaced.no_certificate (h : Replaced w v id row row') (hw : Orderly w debts) :
    certificatesOf v id = [] := by
  rw [certificatesOf_congr h.certificates]
  refine hw.early id fun hstatus => ?_
  rw [statusOf, h.found] at hstatus
  exact h.undelivered (Option.some.inj hstatus)

theorem Replaced.accepted (h : Replaced w v id row row') (hw : Orderly w debts)
    (hstatus : row'.status ≠ .delivered) : Orderly v debts := by
  refine ⟨h.keys ▸ hw.keys, h.taken hw, fun k x hk => ?_, hw.single, fun x hx => ?_, fun x hx => ?_⟩
  · have hne : x ≠ id := fun he => h.not_owed hw k (he ▸ hk)
    rw [h.status, if_neg hne, certificatesOf_congr h.certificates]
    exact hw.debt k x hk
  · rw [h.status] at hx
    rw [certificatesOf_congr h.certificates]
    split at hx
    · exact absurd (Option.some.inj hx) hstatus
    · exact hw.certified x hx
  · rw [h.status] at hx
    split at hx
    · rename_i he
      rw [he]
      exact h.no_certificate hw
    · rw [certificatesOf_congr h.certificates]
      exact hw.early x hx

theorem Replaced.delivered (h : Replaced w v id row row') (hw : Orderly w debts)
    (hstatus : row'.status = .delivered) (hj : debts j = none) :
    Orderly v (Function.update debts j (some id)) := by
  have hdebts (k : ℕ) (x : String) (hk : Function.update debts j (some id) k = some x) :
      k = j ∧ x = id ∨ k ≠ j ∧ x ≠ id ∧ debts k = some x := by
    by_cases hkj : k = j
    · subst hkj
      rw [Function.update_self] at hk
      exact .inl ⟨rfl, (Option.some.inj hk).symm⟩
    · rw [Function.update_of_ne hkj] at hk
      exact .inr ⟨hkj, fun he => h.not_owed hw k (he ▸ hk), hk⟩
  refine ⟨h.keys ▸ hw.keys, h.taken hw, fun k x hk => ?_, fun k l x hk hl => ?_, fun x hx => ?_,
    fun x hx => ?_⟩
  · rcases hdebts k x hk with ⟨-, rfl⟩ | ⟨-, hne, hold⟩
    · rw [h.status, if_pos rfl, hstatus]
      exact ⟨rfl, h.no_certificate hw⟩
    · rw [h.status, if_neg hne, certificatesOf_congr h.certificates]
      exact hw.debt k x hold
  · rcases hdebts k x hk with ⟨rfl, rfl⟩ | ⟨-, hne, hold⟩
    · rcases hdebts l _ hl with ⟨rfl, -⟩ | ⟨-, hne, -⟩
      · rfl
      · exact absurd rfl hne
    · rcases hdebts l _ hl with ⟨-, rfl⟩ | ⟨-, -, hold'⟩
      · exact absurd rfl hne
      · exact hw.single k l x hold hold'
  · by_cases he : x = id
    · exact .inr ⟨j, by rw [he, Function.update_self]⟩
    · rw [h.status, if_neg he] at hx
      rw [certificatesOf_congr h.certificates]
      rcases hw.certified x hx with hone | ⟨k, hk⟩
      · exact .inl hone
      · refine .inr ⟨k, ?_⟩
        rw [Function.update_of_ne]
        · exact hk
        · rintro rfl
          rw [hj] at hk
          cases hk
  · rw [h.status] at hx
    split at hx
    · exact absurd (congrArg some hstatus) hx
    · rw [certificatesOf_congr h.certificates]
      exact hw.early x hx

end Replacing

theorem Orderly.accept (h : Orderly w debts) {lines : List (InventoryItem × Weighed)}
    {notes : Option String} {row : B2bTransfer} (hrow : w.findTransfer id = some row)
    (hstatus : row.status = .requested) (hcenter : row.centerId = centerId)
    (hv : w.accept id centerId lines notes = some v) : Orderly v debts := by
  unfold World.accept at hv
  split at hv
  · obtain ⟨stock, hstock, hv⟩ := Option.bind_eq_some_iff.mp hv
    cases hv
    have hf (row : B2bTransfer) :
        (World.acceptedAs id (lines.map Prod.snd) notes row).id = row.id := by
      unfold World.acceptedAs
      split <;> rfl
    have hreplaced : Replaced w { w with
        stock := stock
        transfers := w.transfers.map (World.acceptedAs id (lines.map Prod.snd) notes) } id row
        { row with status := .accepted, materials := lines.map Prod.snd, notes := notes } := by
      refine ⟨hrow, by rw [hstatus]; nofun, ?_, fun x => ?_, fun x => ?_, rfl⟩
      · rw [List.map_map]
        exact List.map_congr_left fun row _ => hf row
      · rw [findTransfer_replace hf (fun row hne => if_neg hne) rfl, hrow, Option.map_some,
          World.acceptedAs, if_pos (id_of_findTransfer hrow)]
      · rw [movementsOf_outward w (movements_takeOut hstock) rfl]
        split
        · rename_i hx
          rw [hx, h.taken, hrow, recorded, if_pos hstatus, List.nil_append, ← hcenter]
          rfl
        · exact List.append_nil _
    exact hreplaced.accepted h nofun
  · cases hv

theorem Orderly.deliver (h : Orderly w debts) {row : B2bTransfer}
    (hrow : w.findTransfer id = some row) (hstatus : row.status = .accepted) (hj : debts j = none) :
    Orderly (w.deliver id) (Function.update debts j (some id)) := by
  have hf (row : B2bTransfer) : (World.deliveredAs id row).id = row.id := by
    unfold World.deliveredAs
    split <;> rfl
  have hother (row : B2bTransfer) (hne : row.id ≠ id) : World.deliveredAs id row = row :=
    if_neg fun he => hne he.1
  have hreplaced : Replaced w (w.deliver id) id row { row with status := .delivered } := by
    refine ⟨hrow, by rw [hstatus]; nofun, ?_, fun x => ?_, fun x => ?_, rfl⟩
    · rw [World.deliver, List.map_map]
      exact List.map_congr_left fun row _ => hf row
    · have hrow' : World.deliveredAs id row = { row with status := .delivered } :=
        if_pos ⟨id_of_findTransfer hrow, hstatus⟩
      rw [findTransfer_replace hf hother rfl, hrow, Option.map_some, hrow']
    · split
      · rename_i hx
        have htaken := h.taken id
        rw [hrow, recorded, if_neg (by rw [hstatus]; nofun)] at htaken
        rw [hx]
        exact htaken
      · rfl
  exact hreplaced.delivered h rfl hj

theorem deliverable_iff (h : Orderly w debts) :
    w.deliverable id = true ↔ statusOf w id = some .accepted := by
  unfold World.deliverable statusOf
  rw [List.any_eq_true]
  constructor
  · rintro ⟨row, hrow, hmatch⟩
    simp only [Bool.and_eq_true, beq_iff_eq] at hmatch
    have hfind : w.findTransfer id = some row := by
      rw [← hmatch.1]
      exact find_of_mem_nodup h.keys hrow
    rw [hfind, Option.map_some, hmatch.2]
  · intro hstatus
    obtain ⟨row, hrow, hacc⟩ := Option.map_eq_some_iff.mp hstatus
    exact ⟨row, List.mem_of_find?_eq_some hrow, by simp [id_of_findTransfer hrow, hacc]⟩

theorem deliver_same (h : w.deliverable id = false) : (w.deliver id).transfers = w.transfers := by
  refine (List.map_congr_left fun row hrow => ?_).trans (List.map_id _)
  have hnot := List.any_eq_false.mp h row hrow
  exact if_neg (by simpa using hnot)

theorem Orderly.certify (h : Orderly w debts) (hj : debts j = some id) {row : Certificate}
    (hid : row.transferId = id) (hstock : v.stock = w.stock)
    (htransfers : v.transfers = w.transfers)
    (hcertificates : v.certificates = w.certificates ++ [row]) :
    Orderly v (Function.update debts j none) := by
  obtain ⟨hdelivered, hnone⟩ := h.debt j id hj
  have hcert (x : String) : certificatesOf v x =
      if x = id then [row] else certificatesOf w x := by
    unfold certificatesOf
    rw [hcertificates, List.filter_append]
    split
    · rename_i hx
      rw [hx]
      unfold certificatesOf at hnone
      rw [hnone, List.filter_singleton]
      simp [hid]
    · rename_i hx
      have hother : (row.transferId == x) = false := by simpa [hid] using fun he => hx he.symm
      simp [hother]
  have hdebts (k : ℕ) (x : String) (hk : Function.update debts j none k = some x) :
      x ≠ id ∧ debts k = some x := by
    by_cases hkj : k = j
    · subst hkj
      rw [Function.update_self] at hk
      cases hk
    · rw [Function.update_of_ne hkj] at hk
      exact ⟨fun he => hkj (h.single k j id (he ▸ hk) hj), hk⟩
  refine ⟨htransfers ▸ h.keys, fun x => ?_, fun k x hk => ?_, fun k l x hk hl => ?_, fun x hx => ?_,
    fun x hx => ?_⟩
  · rw [movementsOf_congr hstock, findTransfer_congr htransfers]
    exact h.taken x
  · obtain ⟨hne, hold⟩ := hdebts k x hk
    rw [statusOf_congr htransfers, hcert, if_neg hne]
    exact h.debt k x hold
  · exact h.single k l x (hdebts k x hk).2 (hdebts l x hl).2
  · rw [statusOf_congr htransfers] at hx
    rw [hcert]
    split
    · exact .inl rfl
    · rename_i hne
      rcases h.certified x hx with hone | ⟨k, hk⟩
      · exact .inl hone
      · refine .inr ⟨k, ?_⟩
        rw [Function.update_of_ne]
        · exact hk
        · rintro rfl
          exact hne (Option.some.inj (hk.symm.trans hj))
  · rw [statusOf_congr htransfers] at hx
    have hne : x ≠ id := fun he => hx (by rw [he]; exact hdelivered)
    rw [hcert, if_neg hne]
    exact h.early x hx

/-! ### Calls -/

/-- An acceptance still finds its transfer REQUESTED, a delivery is not lost on its way back, and
nothing fails between it and its certificate. -/
def PromptCall (w : World) (s : Stage) (o : Outcome) : Op → Prop
  | .accept _ id _ _ _ => o.delivery.applied = true → statusOf w id = some .requested
  | .deliver id => o.delivery.applied = true → statusOf w id = some .accepted → o.delivery = .done
  | .findTransfer _ => s.owing ≠ none → o.delivery = .done
  | .uploadJson _ => s.owing ≠ none → o.delivery = .done
  | .createCertificate _ _ _ _ => o.delivery.applied = true
  | _ => True

def Prompt (c : Race) : RaceEvent → Prop
  | .advance j o => ∀ s i, stages c j = some s → pending c j = some i → PromptCall c.world s o i
  | .stop j => ∀ s, stages c j = some s → s.owing = none
  | _ => True

def centerOf (w : World) (id : String) : Option String :=
  (w.findTransfer id).map B2bTransfer.centerId

def Settled (w v : World) : Prop := ∀ id c, centerOf w id = some c → centerOf v id = some c

theorem settled_of_transfers (h : v.transfers = w.transfers) : Settled w v := by
  intro id c hc
  unfold centerOf
  rw [findTransfer_congr h]
  exact hc

theorem settled_of_find {f : B2bTransfer → B2bTransfer} (hf : ∀ row, (f row).id = row.id)
    (hcenter : ∀ row, (f row).centerId = row.centerId) (hv : v.transfers = w.transfers.map f) :
    Settled w v := by
  intro id c hc
  unfold centerOf at hc ⊢
  rw [findTransfer_map hf hv, Option.map_map]
  rw [← hc]
  exact congrFun (congrArg Option.map (funext hcenter)) _

theorem settled_append {row : B2bTransfer} (hv : v.transfers = w.transfers ++ [row]) :
    Settled w v := by
  intro id c hc
  unfold centerOf at hc ⊢
  obtain ⟨old, hold, rfl⟩ := Option.map_eq_some_iff.mp hc
  rw [findTransfer_append hv, hold]
  rfl

def Transferring : Op → Prop
  | .dispatch _ _ _ => True
  | .accept _ _ _ _ _ => True
  | .deliver _ => True
  | .createCertificate _ _ _ _ => True
  | _ => False

theorem plain_effect (hi : ¬ Transferring i) (hv : w.effect t o i = some v) :
    v.transfers = w.transfers ∧ v.certificates = w.certificates ∧
      ∀ id, movementsOf v id = movementsOf w id := by
  cases i with
  | recordMovement centerId type quantityKg materialType existingItem =>
    obtain ⟨stock, hstock, hv⟩ := Option.bind_eq_some_iff.mp hv
    cases hv
    obtain ⟨y, q, -, -, hmovements⟩ := movements_recordMovement hstock
    refine ⟨rfl, rfl, movementsOf_others hmovements fun m hm => ?_⟩
    rw [List.mem_singleton.mp hm]
    exact fun id => nofun
  | sell centerId normMaterial item dto =>
    obtain ⟨stock, hstock, hv⟩ := Option.bind_eq_some_iff.mp hv
    obtain ⟨consolidated, -, hv⟩ := Option.bind_eq_some_iff.mp hv
    split at hv
    · cases hv
      refine ⟨rfl, rfl, movementsOf_others (movements_takeOut hstock) fun m hm => ?_⟩
      obtain ⟨entry, -, rfl⟩ := List.mem_map.mp hm
      exact fun id => nofun
    · cases hv
  | credit batch =>
    obtain ⟨stock, hstock, hv⟩ := Option.bind_eq_some_iff.mp hv
    cases hv
    obtain ⟨new, hmovements, hnew⟩ := movements_credit hstock
    refine ⟨rfl, rfl, movementsOf_others hmovements fun m hm => ?_⟩
    rw [(hnew m hm).2.1]
    exact fun id => nofun
  | dispatch _ _ _ => exact absurd trivial hi
  | accept _ _ _ _ _ => exact absurd trivial hi
  | deliver _ => exact absurd trivial hi
  | createCertificate _ _ _ _ => exact absurd trivial hi
  | _ =>
    cases hv
    exact ⟨rfl, rfl, fun _ => rfl⟩

theorem plain_after (hi : ¬ Transferring i) : (w.after t i o).transfers = w.transfers ∧
    (w.after t i o).certificates = w.certificates ∧
      ∀ id, movementsOf (w.after t i o) id = movementsOf w id := by
  rcases after_cases t w i o with hsame | ⟨-, v, hv, hsame⟩
  · exact ⟨hsame.transfers, hsame.certificates, movementsOf_congr hsame.stock⟩
  · obtain ⟨htransfers, hcertificates, hmovements⟩ := plain_effect hi hv
    refine ⟨hsame.transfers.trans htransfers, hsame.certificates.trans hcertificates, fun id => ?_⟩
    rw [movementsOf_congr hsame.stock, hmovements]

theorem after_deliver : w.after t (.deliver id) o = w.update o.delivery fun w => w.deliver id := rfl

theorem after_createCertificate {buyerId ipfsHash : String} {esgImpact : EsgImpact} :
    w.after t (.createCertificate id buyerId ipfsHash esgImpact) o = w.update o.delivery fun w =>
      { w with certificates := w.certificates ++ [⟨buyerId, ipfsHash, esgImpact, id⟩] } := rfl

theorem owing_next (hi : ¬ Transferring i) (hallowed : Allowed t s i) (hprompt : PromptCall w s o i)
    (howed : ∀ id, s.owing = some id → ∃ row, w.findTransfer id = some row) :
    (next t s i (w.reply t i o)).owing = s.owing := by
  cases i with
  | findTransfer id =>
    cases h : s.owing with
    | none =>
      rcases w.reply t (.findTransfer id) o with e | _ | found
      · rfl
      · rfl
      · exact h
    | some owed =>
      obtain rfl := hallowed owed h
      obtain ⟨row, hrow⟩ := howed id h
      have hdone : o.delivery = .done := hprompt (by rw [h]; nofun)
      have hreply : w.reply t (.findTransfer id) o = .ok (some row) := by
        change o.delivery.answer Failure.outside (w.findTransfer id) = _
        rw [hdone, hrow]
        rfl
      rw [hreply]
      exact h
  | uploadJson esgImpact =>
    cases h : s.owing with
    | none =>
      cases w.reply t (.uploadJson esgImpact) o with
      | error e => rfl
      | ok hash => exact h
    | some owed =>
      have hdone : o.delivery = .done := hprompt (by rw [h]; nofun)
      have hreply : w.reply t (.uploadJson esgImpact) o = .ok o.id := by
        change o.delivery.answer Failure.outside o.id = _
        rw [hdone]
        rfl
      rw [hreply]
      exact h
  | dispatch _ _ _ => exact absurd trivial hi
  | accept _ _ _ _ _ => exact absurd trivial hi
  | deliver _ => exact absurd trivial hi
  | createCertificate _ _ _ _ => exact absurd trivial hi
  | findInsensitive centerId name =>
    rcases w.reply t (.findInsensitive centerId name) o with e | found
    · rfl
    · cases found <;> rfl
  | _ =>
    cases w.reply t _ o <;> rfl

/-! ### Every run -/

def owed (st : ℕ → Option Stage) (j : ℕ) : Option String := (st j).bind Stage.owing

theorem owed_update {s' : Option Stage} :
    owed (Function.update st j s') = Function.update (owed st) j (s'.bind Stage.owing) := by
  funext k
  by_cases hkj : k = j
  · subst hkj
    simp [owed]
  · simp [owed, hkj]

theorem owed_keep (hj : st j = some s) {s' : Stage} (h : s'.owing = s.owing) :
    owed (Function.update st j (some s')) = owed st := by
  rw [owed_update, Function.update_eq_self_iff, owed, hj]
  exact h

/-- The books are in order, and the calls know the centres of the transfers they have found. -/
structure Filed (w : World) (st : ℕ → Option Stage) : Prop where
  orderly : Orderly w (owed st)
  known : ∀ j s, st j = some s → ∀ id transfer, s.transfer = some (id, transfer) →
    centerOf w id = some transfer.centerId

theorem next_transfer {x : String} {transfer : B2bTransfer}
    (h : (next t s i (w.reply t i o)).transfer = some (x, transfer)) :
    s.transfer = some (x, transfer) ∨ w.findTransfer x = some transfer := by
  cases i with
  | findTransfer id =>
    rcases hr : w.reply t (.findTransfer id) o with e | _ | found
    · rw [hr] at h
      exact .inl h
    · rw [hr] at h
      exact .inl h
    · rw [hr] at h
      cases h
      exact .inr (Delivery.answer_ok hr).2
  | findInsensitive centerId name =>
    rcases hr : w.reply t (.findInsensitive centerId name) o with e | _ | found <;> rw [hr] at h <;>
      exact .inl h
  | deliver id =>
    rcases hr : w.reply t (.deliver id) o with e | _ | _ <;> rw [hr] at h <;> exact .inl h
  | _ =>
    cases hr : w.reply t _ o <;> rw [hr] at h <;> exact .inl h

theorem known_next (h : Filed w st) (hj : st j = some s) (hsettled : Settled w (w.after t i o)) :
    ∀ k s', Function.update st j (some (next t s i (w.reply t i o))) k = some s' →
      ∀ id transfer, s'.transfer = some (id, transfer) →
        centerOf (w.after t i o) id = some transfer.centerId := by
  intro k s' hk id transfer htransfer
  refine hsettled id _ ?_
  by_cases hkj : k = j
  · subst hkj
    rw [Function.update_self] at hk
    cases hk
    rcases next_transfer htransfer with hold | hfound
    · exact h.known k s hj id transfer hold
    · rw [centerOf, hfound]
      rfl
  · rw [Function.update_of_ne hkj] at hk
    exact h.known k s' hk id transfer htransfer

theorem deliver_cases (w : World) (id : String) (o : Outcome) :
    (o.delivery.applied = true ∧ w.deliverable id = true ∧
      w.after t (.deliver id) o = w.deliver id) ∨
    (w.after t (.deliver id) o).transfers = w.transfers ∧
      (w.after t (.deliver id) o).stock = w.stock ∧
      (w.after t (.deliver id) o).certificates = w.certificates ∧
      w.reply t (.deliver id) o ≠ .ok true := by
  rw [after_deliver]
  unfold World.update
  cases happlied : o.delivery.applied with
  | false =>
    refine .inr ⟨rfl, rfl, rfl, fun hreply => ?_⟩
    rw [(Delivery.answer_ok hreply).1] at happlied
    cases happlied
  | true =>
    cases hfound : w.deliverable id with
    | true => exact .inl ⟨rfl, rfl, rfl⟩
    | false =>
      refine .inr ⟨deliver_same hfound, rfl, rfl, fun hreply => ?_⟩
      have hother := (Delivery.answer_ok hreply).2
      rw [hfound] at hother
      cases hother

theorem deliver_orderly (h : Filed w st) (hj : st j = some s) (howing : s.owing = none)
    (hprompt : PromptCall w s o (.deliver id)) :
    Orderly (w.after t (.deliver id) o) (owed (Function.update st j
      (some (next t s (.deliver id) (w.reply t (.deliver id) o))))) := by
  rcases deliver_cases (t := t) w id o with ⟨happlied, hfound, hafter⟩ |
    ⟨htransfers, hstock, hcertificates, hreply⟩
  · have hstatus := (deliverable_iff h.orderly).mp hfound
    have hreply : w.reply t (.deliver id) o = .ok true := by
      change o.delivery.answer Failure.outside (w.deliverable id) = _
      rw [hprompt happlied hstatus, hfound]
      rfl
    obtain ⟨row, hrow, haccepted⟩ := Option.map_eq_some_iff.mp hstatus
    have hnone : owed st j = none := by
      rw [owed, hj]
      exact howing
    rw [hafter, hreply, owed_update]
    exact h.orderly.deliver hrow haccepted hnone
  · rw [owed_keep hj]
    · exact h.orderly.keep htransfers hcertificates (movementsOf_congr hstock)
    · rcases hr : w.reply t (.deliver id) o with e | _ | _
      · rfl
      · rfl
      · exact absurd hr hreply

theorem settled_after (hallowed : Allowed t s i) : Settled w (w.after t i o) := by
  by_cases hi : Transferring i
  · rcases after_cases t w i o with hsame | ⟨-, v, hv, hsame⟩
    · exact settled_of_transfers hsame.transfers
    · have hv' : Settled w v := by
        cases i with
        | dispatch centerId buyerId lines =>
          change (if _ then none else _) = _ at hv
          split at hv
          · cases hv
          · obtain ⟨stock, -, hv⟩ := Option.bind_eq_some_iff.mp hv
            cases hv
            exact settled_append rfl
        | accept tx id centerId lines notes =>
          change (if _ then _ else none) = _ at hv
          split at hv
          · obtain ⟨stock, -, hv⟩ := Option.bind_eq_some_iff.mp hv
            cases hv
            refine settled_of_find (f := World.acceptedAs id (lines.map Prod.snd) notes) ?_ ?_ rfl
            · intro row
              unfold World.acceptedAs
              split <;> rfl
            · intro row
              unfold World.acceptedAs
              split <;> rfl
          · cases hv
        | deliver id =>
          cases hv
          refine settled_of_find (f := World.deliveredAs id) ?_ ?_ rfl
          · intro row
            unfold World.deliveredAs
            split <;> rfl
          · intro row
            unfold World.deliveredAs
            split <;> rfl
        | createCertificate transferId buyerId ipfsHash esgImpact =>
          cases hv
          exact settled_of_transfers rfl
        | _ => exact absurd hi id
      intro id c hc
      rw [centerOf, findTransfer_congr hsame.transfers]
      exact hv' id c hc
  · exact settled_of_transfers (plain_after hi).1

theorem call_filed (h : Filed w st) (hj : st j = some s) (hallowed : Allowed t s i)
    (hprompt : PromptCall w s o i) :
    Filed (w.after t i o) (Function.update st j (some (next t s i (w.reply t i o)))) := by
  refine ⟨?_, known_next h hj (settled_after hallowed)⟩
  by_cases hi : Transferring i
  · cases i with
    | dispatch centerId buyerId lines =>
      rw [owed_keep hj (by cases w.reply t (.dispatch centerId buyerId lines) o <;> rfl)]
      rcases after_cases t w (.dispatch centerId buyerId lines) o with hsame | ⟨-, v, hv, hsame⟩
      · exact h.orderly.keep hsame.transfers hsame.certificates (movementsOf_congr hsame.stock)
      · have hv' : Orderly v (owed st) := by
          change (if _ then none else _) = _ at hv
          split at hv
          · cases hv
          · rename_i hfresh
            obtain ⟨stock, hstock, hv⟩ := Option.bind_eq_some_iff.mp hv
            cases hv
            have hnone : w.findTransfer (World.dispatched o.id centerId buyerId lines).id = none :=
              Option.not_isSome_iff_eq_none.mp hfresh
            refine h.orderly.insert hnone nofun rfl rfl fun x => ?_
            rw [movementsOf_outward w (movements_takeOut hstock) rfl]
            congr 1
            split
            · rename_i hx
              rw [hx]
              exact (if_pos rfl).symm
            · rename_i hx
              exact (if_neg hx).symm
        exact hv'.keep hsame.transfers hsame.certificates (movementsOf_congr hsame.stock)
    | accept tx id centerId lines notes =>
      rw [owed_keep hj (by cases w.reply t (.accept tx id centerId lines notes) o <;> rfl)]
      rcases after_cases t w (.accept tx id centerId lines notes) o with hsame | ⟨happlied, v,
        hv, hsame⟩
      · exact h.orderly.keep hsame.transfers hsame.certificates (movementsOf_congr hsame.stock)
      · obtain ⟨row, hrow, hstatus⟩ := Option.map_eq_some_iff.mp (hprompt happlied)
        obtain ⟨-, -, transfer, htransfer, hcenter, -⟩ := hallowed
        have hsame' := h.known j s hj id transfer htransfer
        rw [centerOf, hrow] at hsame'
        have hv' : Orderly v (owed st) :=
          h.orderly.accept hrow hstatus ((Option.some.inj hsame').trans hcenter) hv
        exact hv'.keep hsame.transfers hsame.certificates (movementsOf_congr hsame.stock)
    | deliver id => exact deliver_orderly h hj hallowed.1 hprompt
    | createCertificate transferId buyerId ipfsHash esgImpact =>
      have hnext (r : Except Failure Certificate) :
          (next t s (.createCertificate transferId buyerId ipfsHash esgImpact) r).owing = none := by
        cases r <;> rfl
      rw [owed_update, Option.bind_some, hnext, after_createCertificate, World.update,
        if_pos (show o.delivery.applied = true from hprompt)]
      have howed : owed st j = some transferId := by
        rw [owed, hj]
        exact hallowed
      exact h.orderly.certify howed rfl rfl rfl rfl
    | _ => exact absurd hi id
  · obtain ⟨htransfers, hcertificates, hmovements⟩ := plain_after (t := t) (w := w) (o := o) hi
    rw [owed_keep hj (owing_next hi hallowed hprompt fun id hid => ?_)]
    · exact h.orderly.keep htransfers hcertificates hmovements
    · have hdebt := (h.orderly.debt j id (by rw [owed, hj]; exact hid)).1
      obtain ⟨row, hrow, -⟩ := Option.map_eq_some_iff.mp hdebt
      exact ⟨row, hrow⟩

/-- A transfer is made, accepted and delivered, in this order. -/
def Move : Option TransferStatus → Option TransferStatus → Prop
  | none, some .requested => True
  | none, some .accepted => True
  | some .requested, some .accepted => True
  | some .accepted, some .delivered => True
  | before, after => before = after

theorem Move.refl (a : Option TransferStatus) : Move a a := by
  rcases a with _ | _ | _ | _ <;> rfl

def Moves (w v : World) : Prop := ∀ id, Move (statusOf w id) (statusOf v id)

theorem moves_of_transfers (h : v.transfers = w.transfers) : Moves w v := fun id =>
  statusOf_congr h id ▸ .refl _

theorem moves_insert {row : B2bTransfer} (hfresh : w.findTransfer row.id = none)
    (hstatus : row.status ≠ .delivered) (hv : v.transfers = w.transfers ++ [row]) : Moves w v := by
  intro id
  unfold statusOf
  rw [findTransfer_append hv]
  by_cases hid : id = row.id
  · rw [hid, hfresh, if_pos rfl]
    change Move none (some row.status)
    cases hrow : row.status with
    | delivered => exact absurd hrow hstatus
    | _ => trivial
  · rw [if_neg fun he => hid he.symm, Option.or_none]
    exact .refl _

theorem moves_replace (id : String) {f : B2bTransfer → B2bTransfer}
    (hf : ∀ row, (f row).id = row.id)
    (hother : ∀ row, row.id ≠ id → f row = row) (hv : v.transfers = w.transfers.map f)
    (hmove : ∀ row, w.findTransfer id = some row → Move (some row.status) (some (f row).status)) :
    Moves w v := by
  intro x
  unfold statusOf
  rw [findTransfer_replace hf hother hv]
  split
  · rename_i hx
    rw [hx]
    cases hrow : w.findTransfer id with
    | none => rfl
    | some row => exact hmove row hrow
  · exact .refl _

theorem moves_effect (hprompt : PromptCall w s o i) (happlied : o.delivery.applied = true)
    (hv : w.effect t o i = some v) : Moves w v := by
  by_cases hi : Transferring i
  · cases i with
    | dispatch centerId buyerId lines =>
      change (if _ then none else _) = _ at hv
      split at hv
      · cases hv
      · rename_i hfresh
        obtain ⟨stock, -, hv⟩ := Option.bind_eq_some_iff.mp hv
        cases hv
        have hnone : w.findTransfer (World.dispatched o.id centerId buyerId lines).id = none :=
          Option.not_isSome_iff_eq_none.mp hfresh
        exact moves_insert hnone nofun rfl
    | accept tx id centerId lines notes =>
      change (if _ then _ else none) = _ at hv
      split at hv
      · obtain ⟨stock, -, hv⟩ := Option.bind_eq_some_iff.mp hv
        cases hv
        refine moves_replace id (f := World.acceptedAs id (lines.map Prod.snd) notes) ?_ ?_ rfl ?_
        · intro row
          unfold World.acceptedAs
          split <;> rfl
        · exact fun row hne => if_neg hne
        · intro row hrow
          have hstatus := hprompt happlied
          rw [statusOf, hrow] at hstatus
          rw [World.acceptedAs, if_pos (id_of_findTransfer hrow), Option.some.inj hstatus]
          trivial
      · cases hv
    | deliver id =>
      cases hv
      refine moves_replace id (f := World.deliveredAs id) ?_ ?_ rfl ?_
      · intro row
        unfold World.deliveredAs
        split <;> rfl
      · exact fun row hne => if_neg fun he => hne he.1
      · intro row hrow
        unfold World.deliveredAs
        split
        · rename_i haccepted
          rw [haccepted.2]
          trivial
        · exact .refl _
    | createCertificate transferId buyerId ipfsHash esgImpact =>
      cases hv
      exact moves_of_transfers rfl
    | _ => exact absurd hi id
  · exact moves_of_transfers (plain_effect hi hv).1

theorem moves_after (hprompt : PromptCall w s o i) : Moves w (w.after t i o) := by
  rcases after_cases t w i o with hsame | ⟨happlied, v, hv, hsame⟩
  · exact moves_of_transfers hsame.transfers
  · intro id
    rw [statusOf_congr hsame.transfers]
    exact moves_effect hprompt happlied hv id

theorem moves_outside {d : Outside} (h : outside w d = some v) : Moves w v := by
  cases d with
  | request row =>
    change (if _ then _ else none) = _ at h
    split at h
    · rename_i hrow
      cases h
      exact moves_insert hrow.2 (by rw [hrow.1]; nofun) rfl
    · cases h
  | amend users consolidated =>
    cases h
    exact moves_of_transfers rfl
  | abort tx =>
    cases h
    exact moves_of_transfers rfl

theorem moves_step {c c' : Race} {e : RaceEvent} (hprompt : Prompt c e)
    (hstep : (system t).step c e = some c') : Moves c.world c'.world := by
  cases e with
  | start j a =>
    obtain ⟨-, rfl⟩ := step_start.mp hstep
    exact moves_of_transfers rfl
  | advance j o =>
    obtain ⟨s, i, k, ht, rfl⟩ := step_advance.mp hstep
    exact moves_after (hprompt s i (stages_eq ht) (pending_eq ht))
  | stop j =>
    obtain ⟨-, rfl⟩ := step_stop.mp hstep
    exact moves_of_transfers rfl
  | outside d =>
    obtain ⟨w, hw, rfl⟩ := step_outside.mp hstep
    exact moves_outside hw

theorem filed_outside {d : Outside} (h : Filed w st) (hw : outside w d = some v) : Filed v st := by
  cases d with
  | request row =>
    change (if _ then _ else none) = _ at hw
    split at hw
    · rename_i hrow
      cases hw
      refine ⟨h.orderly.insert hrow.2 (by rw [hrow.1]; nofun) rfl rfl fun x => ?_,
        fun j s hj id transfer ht => settled_append rfl id _ (h.known j s hj id transfer ht)⟩
      rw [recorded, if_pos hrow.1, ite_self, List.append_nil]
      exact movementsOf_congr rfl x
    · cases hw
  | amend users consolidated =>
    cases hw
    exact ⟨h.orderly.keep rfl rfl fun _ => rfl, h.known⟩
  | abort tx =>
    cases hw
    exact ⟨h.orderly.keep rfl rfl fun _ => rfl, h.known⟩

theorem filed_set (h : Filed w st) {s' : Option Stage} (howing : s'.bind Stage.owing = owed st j)
    (htransfer : ∀ s, s' = some s → s.transfer = none) : Filed w (Function.update st j s') := by
  refine ⟨?_, fun k s hk id transfer ht => ?_⟩
  · rw [owed_update, howing, Function.update_eq_self]
    exact h.orderly
  · by_cases hkj : k = j
    · subst hkj
      rw [Function.update_self] at hk
      rw [htransfer s hk] at ht
      cases ht
    · rw [Function.update_of_ne hkj] at hk
      exact h.known k s hk id transfer ht

theorem run_filed {es : List RaceEvent} {c : Race} (hopening : Orderly w fun _ => none)
    (hprompt : Along (system t).step Prompt (quiescent w) es)
    (hrun : run (system t).step (quiescent w) es = some c) : Filed c.world (stages c) := by
  refine run_stages (S := system t) (C := Prompt) (I := Filed) (fun caller =>
    follows_program t caller)
    ?_ ?_ ?_ ?_ ?_ ?_ hprompt hrun
  · intro w st j h hj
    refine filed_set h (by rw [owed, hj]; rfl) fun s hs => ?_
    cases hs
    rfl
  · exact fun c j o s i h hj hi hallowed hC => call_filed h hj hallowed (hC s i hj hi)
  · intro c j h hC
    refine filed_set h ?_ fun s hs => by cases hs
    rw [owed]
    cases hs : stages c j with
    | none => rfl
    | some s => exact (hC s hs).symm
  · exact fun c d w h _ hw => filed_outside h hw
  · exact fun j u hj => by cases hj
  · exact ⟨hopening, fun j s hj => by cases hj⟩

/-- Along every prompt run a transfer is made, accepted and delivered in this order; what was taken
out for it is what it says, once; and a delivery has its one certificate, where no call has yet to
make it. -/
theorem transfers_in_order {es : List RaceEvent} {c : Race} (hopening : Orderly w fun _ => none)
    (hprompt : Along (system t).step Prompt (quiescent w) es)
    (hrun : run (system t).step (quiescent w) es = some c) :
    Along (system t).step (fun c e => ∀ c', (system t).step c e = some c' → Moves c.world c'.world)
      (quiescent w) es ∧
    ∀ id, movementsOf c.world id = recorded id (c.world.findTransfer id) ∧
      (certificatesOf c.world id).length ≤ 1 ∧
      (statusOf c.world id = some .delivered →
        (∀ j s, active c j = some s → s.owing ≠ some id) →
          (certificatesOf c.world id).length = 1) := by
  refine ⟨along_mono (fun c e h c' hstep => moves_step h hstep) hprompt, fun id => ?_⟩
  obtain ⟨horderly, -⟩ := run_filed hopening hprompt hrun
  refine ⟨horderly.taken id, ?_, fun hstatus hnobody => ?_⟩
  · by_cases hstatus : statusOf c.world id = some .delivered
    · rcases horderly.certified id hstatus with hone | ⟨j, hj⟩
      · exact hone.le
      · rw [(horderly.debt j id hj).2]
        exact Nat.zero_le 1
    · rw [horderly.early id hstatus]
      exact Nat.zero_le 1
  · refine (horderly.certified id hstatus).resolve_right ?_
    rintro ⟨j, hj⟩
    have hends : (system t).Ends (fun u _ => u.owing = none) c :=
      run_ends (fun caller => clears_program t caller) (fun j u hu => by cases hu) hrun
    unfold owed stages at hj
    rcases ht : c.tasks j with _ | ⟨s, rest⟩
    · rw [ht] at hj
      cases hj
    · rw [ht] at hj
      cases rest with
      | done x =>
        have hnone : s.owing = none := hends j _ ht
        change s.owing = some id at hj
        rw [hnone] at hj
        cases hj
      | call i k => exact hnobody j s (active_eq ht) hj

/-! ### Runs of one transfer -/

/-- Twenty kilograms have come in, and a company has asked for eight of them. -/
def askedFor : World :=
  { tenKilograms with
    stock := ⟨[⟨"center", "PET", 20⟩], [⟨"center", .in_, 20, "PET", .byHand⟩]⟩
    transfers := [⟨"transfer", [("PET", 8)], [("PET", 8)], .requested, none, "company", "center"⟩] }

theorem askedFor_orderly : Orderly askedFor fun _ => none := by
  refine ⟨List.nodup_singleton _, fun id => ?_, fun j id hj => (by cases hj),
    fun j k id hj => (by cases hj), fun id hid => ?_, fun id _ => rfl⟩
  · have hnothing : movementsOf askedFor id = [] :=
      List.filter_eq_nil_iff.mpr fun m hm => by
        rw [List.mem_singleton.mp hm]
        nofun
    rw [hnothing]
    cases hrow : askedFor.findTransfer id with
    | none => rfl
    | some row =>
      rw [List.mem_singleton.mp (List.mem_of_find?_eq_some hrow)]
      rfl
  · obtain ⟨row, hrow, hstatus⟩ := Option.map_eq_some_iff.mp hid
    rw [List.mem_singleton.mp (List.mem_of_find?_eq_some hrow)] at hstatus
    cases hstatus

def acceptance (j : ℕ) : RaceEvent :=
  .start j (.acceptTransfer "transfer" "center" ⟨[⟨"PET", eight, eight_positive⟩], none⟩)

def reception (j : ℕ) : RaceEvent := .start j (.receiveTransfer "transfer" "company")

/-- `Prompt` as a test, of runs of one program at a time. -/
def prompt (c : Race) : RaceEvent → Bool
  | .advance j o =>
    match stages c j, pending c j with
    | some _, some (.accept _ id _ _ _) =>
      !o.delivery.applied || statusOf c.world id == some .requested
    | some _, some (.deliver _) => o.delivery == .done
    | some _, some (.findTransfer _) => o.delivery == .done
    | some _, some (.uploadJson _) => o.delivery == .done
    | some _, some (.createCertificate _ _ _ _) => o.delivery.applied
    | _, _ => true
  | .stop _ => false
  | _ => true

theorem prompt_of_test {c : Race} {e : RaceEvent} (h : prompt c e = true) : Prompt c e := by
  cases e with
  | advance j o =>
    intro s i hj hi
    simp only [prompt, hj, hi] at h
    cases i with
    | accept tx id centerId lines notes =>
      intro happlied
      simpa [happlied] using h
    | deliver id => exact fun _ _ => beq_iff_eq.mp h
    | findTransfer id => exact fun _ => beq_iff_eq.mp h
    | uploadJson esgImpact => exact fun _ => beq_iff_eq.mp h
    | createCertificate transferId buyerId ipfsHash esgImpact => exact h
    | _ => trivial
  | stop j => cases h
  | _ => trivial

def acceptedThenReceived : List RaceEvent :=
  acceptance 0 :: answered 0 5 ++ reception 1 :: answered 1 5

theorem transfers_in_order_received : ∃ c,
    run (system normalLetters).step (quiescent askedFor) acceptedThenReceived = some c ∧
      Along (system normalLetters).step (fun c e => ∀ c', (system normalLetters).step c e =
        some c' →
        Moves c.world c'.world) (quiescent askedFor) acceptedThenReceived ∧
      movementsOf c.world "transfer" = recorded "transfer" (c.world.findTransfer "transfer") := by
  obtain ⟨c, hc⟩ := Option.isSome_iff_exists.mp (show (run (system normalLetters).step
    (quiescent askedFor) acceptedThenReceived).isSome = true by decide +kernel)
  have hprompt : Along (system normalLetters).step Prompt
    (quiescent askedFor) acceptedThenReceived :=
    along_mono (fun _ _ h => prompt_of_test h) (by decide +kernel)
  obtain ⟨hmoves, horder⟩ := transfers_in_order askedFor_orderly hprompt hc
  exact ⟨c, hc, hmoves, (horder "transfer").1⟩

/-- How often the stock was taken from, the status, and the number of certificates. -/
def course (c : Race) : ℕ × Option TransferStatus × ℕ :=
  ((movementsOf c.world "transfer").length, statusOf c.world "transfer",
    (certificatesOf c.world "transfer").length)

/-- Two acceptances have both found the transfer REQUESTED, and one of them is delivered before the
other writes. -/
def lateAcceptance : List RaceEvent :=
  acceptance 0 :: acceptance 1 :: answered 1 1 ++ answered 0 5 ++ reception 2 :: answered 2 5

/-- A reception is cut off after its delivery, and called again. -/
def cutOffReception : List RaceEvent :=
  acceptance 0 :: answered 0 5 ++ reception 1 :: answered 1 2 ++
    .stop 1 :: reception 2 :: answered 2 1

theorem taken_twice_or_uncertified :
    Orderly askedFor (fun _ => none) ∧
    (∃ c c', run (system normalLetters).step (quiescent askedFor) lateAcceptance = some c ∧
      run (system normalLetters).step c (answered 1 4) = some c' ∧
      course c = (1, some .delivered, 1) ∧ course c' = (2, some .accepted, 1)) ∧
    ∃ c, run (system normalLetters).step (quiescent askedFor) cutOffReception = some c ∧
      course c = (1, some .delivered, 0) ∧ active c 2 = none := by
  refine ⟨askedFor_orderly, ?_, ?_⟩
  · have hrun : ((run (system normalLetters).step (quiescent askedFor) lateAcceptance).bind fun c =>
        (run (system normalLetters).step c (answered 1 4)).map fun c' => (course c, course c')) =
          some ((1, some .delivered, 1), (2, some .accepted, 1)) := by decide +kernel
    obtain ⟨c, hc, hrun⟩ := Option.bind_eq_some_iff.mp hrun
    obtain ⟨c', hc', hcourses⟩ := Option.map_eq_some_iff.mp hrun
    obtain ⟨hbefore, hafter⟩ := Prod.mk.inj hcourses
    exact ⟨c, c', hc, hc', hbefore, hafter⟩
  · have hrun : (run (system normalLetters).step (quiescent askedFor) cutOffReception).map (fun c =>
        (course c, (active c 2).isNone)) = some ((1, some .delivered, 0), true) := by decide +kernel
    obtain ⟨c, hc, hcourse⟩ := Option.map_eq_some_iff.mp hrun
    obtain ⟨hcourse, hended⟩ := Prod.mk.inj hcourse
    exact ⟨c, hc, hcourse, Option.isNone_iff_eq_none.mp hended⟩

end Livora.TransferRaces
