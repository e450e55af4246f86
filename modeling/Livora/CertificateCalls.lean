import Livora.CallTraces
import Livora.TransferRaces

/-! The calls about the stock with what their callers have been answered before. An acceptance has
found the transfer, of its own centre; a certificate is made of the row that was found after the
delivery. -/

namespace Livora.CertificateCalls

open EffectPrograms EffectPrograms.Action TransitionRuns ProgramPools ProgramPools.System NamedPools CallTraces
open StockBooks StockMoves StockServices StockStages CenterBooks StockRaces TransferRaces
open StoreBooks (Failure)

abbrev Answered := Call (Caller × Op) fun i => Except Failure (Reply i.2)

abbrev Past := List (Made World (Caller × Op) fun i => Except Failure (Reply i.2))

/-! ### What a call has to have shown -/

def certified : Op → Option String
  | .createCertificate transferId _ _ _ => some transferId
  | _ => none

/-- The row was found after the delivery. -/
def Reread (own : List Answered) (caller : Caller) (id : String) (row : B2bTransfer) : Prop :=
  ∃ p q : List Answered, own = p ++ said caller (.findTransfer id) (.ok (some row)) :: q ∧
    said caller (.deliver id) (.ok true) ∈ p

def Allowed (own : List Answered) : Caller × Op → Prop
  | (caller, .accept _ id centerId _ _) => ∃ found,
      said caller (.findTransfer id) (.ok (some found)) ∈ own ∧ found.centerId = centerId
  | (caller, .createCertificate id buyerId ipfsHash impact) => ∃ row, Reread own caller id row ∧
      buyerId = row.buyerId ∧ impact = esgImpact row.materials ∧
      said caller (.uploadJson impact) (.ok ipfsHash) ∈ own ∧ ∀ c ∈ own, certified c.1.2 ≠ some id
  | _ => True

/-- Who is answered with a certificate found the transfer its own, and was given the certificate of
the row that is answered. -/
def Ended (own : List Answered) : Caller × Except Failure Answer → Prop
  | (.receiveTransfer id buyerId, .ok (.received transfer certificate)) =>
      Reread own (.receiveTransfer id buyerId) id transfer ∧
      (∃ found, said (.receiveTransfer id buyerId) (.findTransfer id) (.ok (some found)) ∈ own ∧
        found.buyerId = buyerId) ∧
      ∃ ipfsHash, said (.receiveTransfer id buyerId)
        (.createCertificate id transfer.buyerId ipfsHash (esgImpact transfer.materials))
        (.ok certificate) ∈ own
  | _ => True

abbrev system (t : Letters) : System Caller World Outcome Outside (List Answered) (Caller × Op)
    (fun i => Except Failure (Reply i.2)) (Caller × Except Failure Answer) where
  program caller := inName caller (program t caller).run
  serve w i o := w.serve t i.2 o
  outside := outside
  protocol := remembering Allowed
  first := []

abbrev Race := Pool World (Task (List Answered) (Caller × Op) (fun i => Except Failure (Reply i.2))
  (Caller × Except Failure Answer))

def quiescent (w : World) : Race := ⟨w, fun _ => none⟩

/-! ### The programs -/

section Programs

variable {t : Letters} {own : List Answered} {caller : Caller} {id centerId buyerId : String}
    {α : Type}

def Free : Op → Prop
  | .accept _ _ _ _ _ => False
  | .createCertificate _ _ _ _ => False
  | _ => True

theorem allowed_of_free {i : Op} (h : Free i) : Allowed own (caller, i) := by
  cases i with
  | accept tx id centerId lines notes => exact h.elim
  | createCertificate transferId buyerId ipfsHash impact => exact h.elim
  | _ => trivial

theorem gives_free {act : Work α} (h : Only Free act) :
    Gives Allowed caller own (fun _ _ => True) act :=
  gives_of_only (fun _ _ hi => allowed_of_free hi) h

theorem only_findRows (requested : List Weighed) : Only Free (findRows centerId requested) := by
  induction requested with
  | nil => exact only_pure _
  | cons entry requested ih =>
    refine only_bind (only_perform trivial) fun found => ?_
    cases found with
    | none => exact only_throw _
    | some invItem =>
      dsimp only
      split
      · exact only_throw _
      · exact only_bind ih fun rows => only_pure _

theorem only_lookUp (materialNames : List String) : Only Free (lookUp centerId materialNames) := by
  induction materialNames with
  | nil => exact only_pure _
  | cons name materialNames ih =>
    refine only_bind (only_perform trivial) fun invItem =>
      only_bind (only_perform trivial) fun totalIn => ?_
    exact only_bind (only_perform trivial) fun totalOut => only_bind ih fun rest => only_pure _

theorem only_takeInventory (tx : ℕ) (materialNames : List String) :
    Only Free (takeInventory t tx centerId materialNames) := by
  refine only_bind ?_ fun inventory => ?_
  · refine only_bind (only_recover (only_bind (only_perform trivial) fun items => only_pure _))
      fun locked => ?_
    cases locked with
    | none => exact only_pure _
    | some items => exact only_bind (only_recover (only_perform trivial)) fun sums => only_pure _
  · split
    · exact only_lookUp materialNames
    · exact only_pure _

theorem only_createSale (dto : CreateSaleDto) : Only Free (createSale t centerId dto) := by
  refine only_bind (only_perform trivial) fun buyer => ?_
  split
  · refine only_bind (only_perform trivial) fun totalIn =>
      only_bind (only_perform trivial) fun totalOut => ?_
    split
    · exact only_throw _
    · refine only_bind (only_perform trivial) fun found => ?_
      cases found with
      | none => exact only_throw _
      | some invItem =>
        dsimp only
        split
        · exact only_throw _
        · exact only_perform trivial
  · exact only_throw _

theorem only_createTransfer (dto : CreateB2bTransferDto) :
    Only Free (createTransfer t centerId dto) := by
  refine only_bind (only_perform trivial) fun buyer => ?_
  split
  · exact only_bind (only_findRows _) fun lines => only_perform trivial
  · exact only_throw _

theorem gives_acceptTransfer (dto : AcceptB2bTransferDto) :
    Gives Allowed caller own (fun _ _ => True) (acceptTransfer t id centerId dto) := by
  refine gives_call trivial fun found => ?_
  cases found with
  | none => exact gives_throw _
  | some transfer =>
    dsimp only
    split
    · exact gives_throw _
    rename_i hcenter
    split
    · exact gives_throw _
    split
    · exact gives_throw _
    refine gives_call trivial fun tx => gives_rescue ?_ fun e u => ?_
    · refine gives_bind (gives_free (only_takeInventory _ _)) fun inventory u hu _ => ?_
      split
      · exact gives_throw _
      · refine gives_perform ⟨transfer, hu ?_, not_ne_iff.mp hcenter⟩ fun _ => trivial
        simp [said]
    · exact gives_call trivial fun _ => gives_throw _

theorem gives_receiveTransfer :
    Gives Allowed (.receiveTransfer id buyerId) [] (fun u received =>
      Ended u (.receiveTransfer id buyerId, .ok (.received received.1 received.2)))
        (receiveTransfer id buyerId) := by
  refine gives_call trivial fun found => ?_
  cases found with
  | none => exact gives_throw _
  | some transfer =>
    dsimp only
    split
    · exact gives_throw _
    rename_i hbuyer
    split
    · exact gives_throw _
    refine gives_call trivial fun updated => ?_
    cases updated with
    | false => exact gives_throw _
    | true =>
      refine gives_call trivial fun again => ?_
      cases again with
      | none => exact gives_throw _
      | some row =>
        refine gives_call trivial fun ipfsHash => ?_
        have hreread : ∀ q, Reread ([said (.receiveTransfer id buyerId) (.findTransfer id) (.ok (some transfer)),
            said (.receiveTransfer id buyerId) (.deliver id) (.ok true)] ++
            said (.receiveTransfer id buyerId) (.findTransfer id) (.ok (some row)) :: q)
            (.receiveTransfer id buyerId) id row := fun q => ⟨_, q, rfl, by simp⟩
        refine gives_call ⟨row, hreread _, rfl, rfl, by simp [said], by simp [said, certified]⟩
          fun certificate => ?_
        refine gives_pure ⟨hreread _, ⟨transfer, by simp [said], not_ne_iff.mp hbuyer⟩, ipfsHash, ?_⟩
        simp [said]

theorem keeps_program (t : Letters) (caller : Caller) :
    Keeps (remembering Allowed) Ended [] (inName caller (program t caller).run) := by
  refine (keeps_inName (ρ := fun i => Except Failure (Reply i))).mpr ?_
  have hgives : Gives Allowed caller [] (fun u answer => Ended u (caller, .ok answer))
    (program t caller) := by
    cases caller with
    | createMovement centerId dto =>
      refine gives_bind (gives_free ?_) fun _ _ _ _ => gives_pure trivial
      refine only_bind (only_perform trivial) fun existingItem => ?_
      split
      · exact only_throw _
      · exact only_perform trivial
    | createSale centerId dto =>
      exact gives_bind (gives_free (only_createSale dto)) fun _ _ _ _ => gives_pure trivial
    | createTransfer centerId dto =>
      exact gives_bind (gives_free (only_createTransfer dto)) fun _ _ _ _ => gives_pure trivial
    | acceptTransfer id centerId dto =>
      exact gives_bind (gives_acceptTransfer dto) fun _ _ _ _ => gives_pure trivial
    | receiveTransfer id buyerId =>
      exact gives_bind gives_receiveTransfer fun _ _ _ hended => gives_pure hended
    | creditBatch batch => exact gives_call trivial fun _ => gives_pure trivial
  refine Keeps.mono (fun u x hx => ?_) hgives
  cases x with
  | error e => cases caller <;> trivial
  | ok answer => exact (hx answer rfl).2

end Programs

end Livora.CertificateCalls
