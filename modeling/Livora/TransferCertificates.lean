import Livora.CertificateCalls

/-! Certificates of transfers, whatever calls come between and wherever a call is cut off. A
certificate is of a transfer that was delivered, for its buyer and of the materials that were taken
out of the stock for it, and no transfer has two, along every run in which an acceptance still finds
its transfer REQUESTED. -/

namespace Livora.TransferCertificates

open EffectPrograms TransitionRuns ProgramPools ProgramPools.System CallTraces
open StockBooks StockMoves StockServices StockStages CenterBooks TransferRaces CertificateCalls
open StockRaces (Outside RaceEvent SameBooks after_cases normalLetters answered)
open StoreBooks (Failure)

variable {t : Letters} {w w₀ v : World} {h : Past} {st : ℕ → Option (List Answered)} {j : ℕ}
  {own : List Answered} {caller : Caller} {i : Op} {o : Outcome} {id centerId : String}
  {m : Made World (Caller × Op) fun i => Except Failure (Reply i.2)}

/-! ### The books -/

/-- The certificate says of the transfer who bought it and what was taken out for it. -/
def Matches (row : B2bTransfer) (certificate : Certificate) : Prop :=
  row.status = .delivered ∧ certificate.buyerId = row.buyerId ∧
    certificate.esgImpact = esgImpact row.materials

structure Sound (w : World) : Prop where
  keys : (w.transfers.map B2bTransfer.id).Nodup
  taken : ∀ id, movementsOf w id = recorded id (w.findTransfer id)
  truthful : ∀ certificate ∈ w.certificates, ∃ row,
    w.findTransfer certificate.transferId = some row ∧ Matches row certificate
  single : (w.certificates.map Certificate.transferId).Nodup

/-- A transfer stays with its parties, and does not change any more once it is delivered. -/
def Lasting (w v : World) : Prop := ∀ id row, w.findTransfer id = some row → ∃ row',
  v.findTransfer id = some row' ∧ row'.centerId = row.centerId ∧ row'.buyerId = row.buyerId ∧
    (row.status = .delivered → row' = row)

structure Moved (w v : World) : Prop where
  keys : (v.transfers.map B2bTransfer.id).Nodup
  taken : ∀ id, movementsOf v id = recorded id (v.findTransfer id)
  lasting : Lasting w v
  certificates : v.certificates = w.certificates

theorem Lasting.of_delivered (hl : Lasting w v) {row : B2bTransfer}
    (hrow : w.findTransfer id = some row)
    (hstatus : row.status = .delivered) : v.findTransfer id = some row := by
  obtain ⟨row', hrow', -, -, hsame⟩ := hl id row hrow
  rw [hrow', hsame hstatus]

theorem Lasting.status (hl : Lasting w v) (h : statusOf w id = some .delivered) :
    statusOf v id = some .delivered := by
  obtain ⟨row, hrow, hstatus⟩ := Option.map_eq_some_iff.mp h
  rw [statusOf, hl.of_delivered hrow hstatus, Option.map_some, hstatus]

theorem Sound.moved (hs : Sound w) (hm : Moved w v) : Sound v where
  keys := hm.keys
  taken := hm.taken
  truthful certificate hcertificate := by
    rw [hm.certificates] at hcertificate
    obtain ⟨row, hrow, hmatches⟩ := hs.truthful certificate hcertificate
    exact ⟨row, hm.lasting.of_delivered hrow hmatches.1, hmatches⟩
  single := by
    rw [hm.certificates]
    exact hs.single

theorem Sound.uncertified (hs : Sound w) (h : statusOf w id ≠ some .delivered) :
    certificatesOf w id = [] := by
  refine List.filter_eq_nil_iff.mpr fun certificate hcertificate hid => h ?_
  obtain ⟨row, hrow, hstatus, -⟩ := hs.truthful certificate hcertificate
  rw [beq_iff_eq.mp hid] at hrow
  rw [statusOf, hrow, Option.map_some, hstatus]

/-! ### What a call does to them -/

theorem moved_same (hs : Sound w) (htransfers : v.transfers = w.transfers)
    (hcertificates : v.certificates = w.certificates)
    (hmovements : ∀ id, movementsOf v id = movementsOf w id) :
    Moved w v where
  keys := htransfers ▸ hs.keys
  taken id := by
    rw [hmovements, findTransfer_congr htransfers]
    exact hs.taken id
  lasting id row hrow := ⟨row, by rw [findTransfer_congr htransfers, hrow], rfl, rfl, fun _ => rfl⟩
  certificates := hcertificates

theorem Moved.sameBooks (hm : Moved w v) {u : World} (hsame : SameBooks v u) : Moved w u where
  keys := hsame.transfers ▸ hm.keys
  taken id := by
    rw [movementsOf_congr hsame.stock, findTransfer_congr hsame.transfers]
    exact hm.taken id
  lasting id row hrow := by
    rw [findTransfer_congr hsame.transfers]
    exact hm.lasting id row hrow
  certificates := hsame.certificates.trans hm.certificates

theorem moved_insert (hs : Sound w) {row : B2bTransfer} (hfresh : w.findTransfer row.id = none)
    (htransfers : v.transfers = w.transfers ++ [row])
    (hcertificates : v.certificates = w.certificates) (hmovements : ∀ id, movementsOf v id =
      movementsOf w id ++ if id = row.id then recorded id (some row) else []) : Moved w v where
  keys := by
    rw [htransfers, List.map_append, List.nodup_append]
    refine ⟨hs.keys, List.nodup_singleton _, fun x hx y hy he => ?_⟩
    rw [List.map_singleton, List.mem_singleton] at hy
    exact findTransfer_none_iff.mp hfresh (hy ▸ he ▸ hx)
  taken id := by
    rw [hmovements, hs.taken, findTransfer_append htransfers]
    by_cases hid : id = row.id
    · rw [hid, hfresh, if_pos rfl, if_pos rfl]
      rfl
    · rw [if_neg hid, if_neg fun he => hid he.symm, List.append_nil, Option.or_none]
  lasting id old hold :=
    ⟨old, by rw [findTransfer_append htransfers, hold]; rfl, rfl, rfl, fun _ => rfl⟩
  certificates := hcertificates

theorem moved_replaced (hs : Sound w) {row row' : B2bTransfer} (hr : Replaced w v id row row')
    (hcenter : row'.centerId = row.centerId) (hbuyer : row'.buyerId = row.buyerId) : Moved w v where
  keys := hr.keys ▸ hs.keys
  taken x := by
    rw [hr.movements, hr.find]
    split
    · rename_i hx
      rw [hx]
    · exact hs.taken x
  lasting x old hold := by
    rw [hr.find]
    by_cases hx : x = id
    · rw [hx, hr.found] at hold
      cases hold
      exact ⟨row', if_pos hx, hcenter, hbuyer, fun hstatus => absurd hstatus hr.undelivered⟩
    · exact ⟨old, by rw [if_neg hx, hold], rfl, rfl, fun _ => rfl⟩
  certificates := hr.certificates

theorem moved_accept (hs : Sound w) {lines : List (InventoryItem × Weighed)} {notes : Option String}
    (hcenter : centerOf w id = some centerId) (hstatus : statusOf w id = some .requested)
    (hv : w.accept id centerId lines notes = some v) : Moved w v := by
  obtain ⟨row, hrow, hrequested⟩ := Option.map_eq_some_iff.mp hstatus
  obtain rfl : row.centerId = centerId := by
    rw [centerOf, hrow] at hcenter
    exact Option.some.inj hcenter
  unfold World.accept at hv
  rw [hrow, Option.isSome_some, if_pos rfl] at hv
  obtain ⟨stock, hstock, hv⟩ := Option.bind_eq_some_iff.mp hv
  cases hv
  have hid (x : B2bTransfer) : (World.acceptedAs id (lines.map Prod.snd) notes x).id = x.id := by
    unfold World.acceptedAs
    split <;> rfl
  refine @moved_replaced _ _ _ hs row
    { row with status := .accepted, materials := lines.map Prod.snd, notes := notes }
    ⟨hrow, by rw [hrequested]; decide, ?_, fun x => ?_, fun x => ?_, rfl⟩ rfl rfl
  · rw [List.map_map]
    exact List.map_congr_left fun x _ => hid x
  · rw [findTransfer_replace hid (fun x hne => if_neg hne) rfl, hrow, Option.map_some,
      World.acceptedAs, if_pos (id_of_findTransfer hrow)]
  · rw [movementsOf_outward w (movements_takeOut hstock) rfl]
    split
    · rename_i hx
      rw [hx, hs.taken, hrow, recorded, if_pos hrequested, List.nil_append]
      rfl
    · exact List.append_nil _

theorem moved_deliver (hs : Sound w) (hstatus : statusOf w id = some .accepted) :
    Moved w (w.deliver id) := by
  obtain ⟨row, hrow, haccepted⟩ := Option.map_eq_some_iff.mp hstatus
  have hid (x : B2bTransfer) : (World.deliveredAs id x).id = x.id := by
    unfold World.deliveredAs
    split <;> rfl
  refine @moved_replaced _ _ _ hs row { row with status := .delivered }
    ⟨hrow, by rw [haccepted]; decide, ?_, fun x => ?_, fun x => ?_, rfl⟩ rfl rfl
  · rw [World.deliver, List.map_map]
    exact List.map_congr_left fun x _ => hid x
  · have hrow' : World.deliveredAs id row = { row with status := .delivered } :=
      if_pos ⟨id_of_findTransfer hrow, haccepted⟩
    rw [findTransfer_replace hid (fun x hne => if_neg fun he => hne he.1) rfl, hrow,
      Option.map_some, hrow']
  · split
    · rename_i hx
      rw [hx]
      refine (hs.taken id).trans ?_
      rw [hrow, recorded, if_neg (by rw [haccepted]; decide)]
      rfl
    · rfl

theorem accepted_of_deliverable (hs : Sound w) (h : w.deliverable id = true) :
    statusOf w id = some .accepted := by
  obtain ⟨row, hrow, hmatch⟩ := List.any_eq_true.mp h
  obtain ⟨hid, hstatus⟩ := Bool.and_eq_true_iff.mp hmatch
  rw [← beq_iff_eq.mp hid, statusOf, find_of_mem_nodup hs.keys hrow, Option.map_some,
    beq_iff_eq.mp hstatus]

theorem moved_dispatch (hs : Sound w) {x buyerId : String} {lines : List (InventoryItem × Weighed)}
    (hv : w.dispatch x centerId buyerId lines = some v) : Moved w v := by
  unfold World.dispatch at hv
  split at hv
  · cases hv
  · rename_i hfresh
    obtain ⟨stock, hstock, hv⟩ := Option.bind_eq_some_iff.mp hv
    cases hv
    have hnew : w.findTransfer (World.dispatched x centerId buyerId lines).id = none :=
      Option.not_isSome_iff_eq_none.mp hfresh
    refine moved_insert hs hnew rfl rfl fun id => ?_
    rw [movementsOf_outward w (movements_takeOut hstock) rfl]
    congr 1
    split
    · rename_i hid
      rw [hid]
      exact (if_pos rfl).symm
    · rename_i hid
      exact (if_neg hid).symm

theorem moved_after (hs : Sound w) (hi : certified i = none)
    (haccept : ∀ tx id centerId lines notes, i = .accept tx id centerId lines notes →
      centerOf w id = some centerId ∧
        (o.delivery.applied = true → statusOf w id = some .requested)) :
    Moved w (w.after t i o) := by
  by_cases htransferring : Transferring i
  · cases i with
    | deliver id =>
      rcases deliver_cases (t := t) w id o with ⟨-, hfound, hafter⟩ | ⟨htransfers, hstock,
        hcertificates, -⟩
      · rw [hafter]
        exact moved_deliver hs (accepted_of_deliverable hs hfound)
      · exact moved_same hs htransfers hcertificates (movementsOf_congr hstock)
    | dispatch centerId buyerId lines =>
      rcases after_cases t w (.dispatch centerId buyerId lines) o with hsame | ⟨-, v, hv, hsame⟩
      · exact moved_same hs hsame.transfers hsame.certificates (movementsOf_congr hsame.stock)
      · exact (moved_dispatch hs hv).sameBooks hsame
    | accept tx id centerId lines notes =>
      obtain ⟨hcenter, htimely⟩ := haccept tx id centerId lines notes rfl
      rcases after_cases t w (.accept tx id centerId lines notes) o with hsame | ⟨happlied, v,
        hv, hsame⟩
      · exact moved_same hs hsame.transfers hsame.certificates (movementsOf_congr hsame.stock)
      · exact (moved_accept hs hcenter (htimely happlied) hv).sameBooks hsame
    | createCertificate transferId buyerId ipfsHash impact => cases hi
    | _ => exact htransferring.elim
  · obtain ⟨htransfers, hcertificates, hmovements⟩ :=
      plain_after (t := t) (w := w) (o := o) htransferring
    exact moved_same hs htransfers hcertificates hmovements

theorem moved_outside (hs : Sound w) {d : Outside} (hv : StockRaces.outside w d = some v) :
    Moved w v := by
  cases d with
  | request row =>
    change (if _ then _ else none) = _ at hv
    split at hv
    · rename_i hrow
      cases hv
      refine moved_insert hs hrow.2 rfl rfl fun id => ?_
      rw [recorded, if_pos hrow.1, ite_self, List.append_nil]
      exact movementsOf_congr rfl id
    · cases hv
  | amend users consolidated =>
    cases hv
    exact moved_same hs rfl rfl fun _ => rfl
  | abort tx =>
    cases hv
    exact moved_same hs rfl rfl fun _ => rfl

/-! ### The books and the calls -/

structure Kept (w₀ : World) (h : Past) (w : World) (st : ℕ → Option (List Answered)) : Prop where
  sound : Sound w
  parties : ∀ caller id found, said caller (.findTransfer id) (.ok (some found)) ∈ h.map Made.call →
    ∃ row, w.findTransfer id = some row ∧ row.centerId = found.centerId ∧
      row.buyerId = found.buyerId
  delivered : ∀ caller id, said caller (.deliver id) (.ok true) ∈ h.map Made.call →
    statusOf w id = some .delivered
  reread : ∀ j own, st j = some own → ∀ caller id row, Reread own caller id row →
    w.findTransfer id = some row ∧ row.status = .delivered
  waiting : ∀ j own, st j = some own → ∀ caller id, said caller (.deliver id) (.ok true) ∈ own →
    (∀ c ∈ own, certified c.1.2 ≠ some id) → certificatesOf w id = []
  single : ∀ j own k other caller caller' id, st j = some own → st k = some other →
    said caller (.deliver id) (.ok true) ∈ own → said caller' (.deliver id) (.ok true) ∈
      other → j = k
  uploaded : ∀ certificate ∈ w.certificates, certificate ∈ w₀.certificates ∨ ∃ caller,
    said caller (.uploadJson certificate.esgImpact) (.ok certificate.ipfsHash) ∈ h.map Made.call
  given : ∀ caller id buyerId ipfsHash impact certificate,
    said caller (.createCertificate id buyerId ipfsHash impact) (.ok certificate) ∈
      h.map Made.call →
      certificate = ⟨buyerId, ipfsHash, impact, id⟩ ∧ certificate ∈ w.certificates

theorem Lasting.parties (hl : Lasting w v) {found : B2bTransfer}
    (hp : ∃ row, w.findTransfer id = some row ∧ row.centerId = found.centerId ∧
      row.buyerId = found.buyerId) :
    ∃ row, v.findTransfer id = some row ∧ row.centerId = found.centerId ∧
      row.buyerId = found.buyerId := by
  obtain ⟨row, hrow, hcenter, hbuyer⟩ := hp
  obtain ⟨row', hrow', hcenter', hbuyer', -⟩ := hl id row hrow
  exact ⟨row', hrow', hcenter'.trans hcenter, hbuyer'.trans hbuyer⟩

theorem Kept.moved (hk : Kept w₀ h w st) (hm : Moved w v) : Kept w₀ h v st where
  sound := hk.sound.moved hm
  parties caller id found hfound := hm.lasting.parties (hk.parties caller id found hfound)
  delivered caller id hdeliver := hm.lasting.status (hk.delivered caller id hdeliver)
  reread j own hj caller id row hrow := by
    obtain ⟨hfind, hstatus⟩ := hk.reread j own hj caller id row hrow
    exact ⟨hm.lasting.of_delivered hfind hstatus, hstatus⟩
  waiting j own hj caller id hdeliver hnone := by
    rw [certificatesOf_congr hm.certificates]
    exact hk.waiting j own hj caller id hdeliver hnone
  single := hk.single
  uploaded := by
    rw [hm.certificates]
    exact hk.uploaded
  given := by
    rw [hm.certificates]
    exact hk.given

theorem not_reread_nil {row : B2bTransfer} : ¬ Reread [] caller id row := by
  rintro ⟨p, q, hsplit, -⟩
  simp at hsplit

theorem Kept.set (hk : Kept w₀ h w st) {s : Option (List Answered)}
    (hs : ∀ own, s = some own → own = []) :
    Kept w₀ h w (Function.update st j s) where
  sound := hk.sound
  parties := hk.parties
  delivered := hk.delivered
  reread k own hown caller id row hrow := by
    rcases stage_update hown with ⟨-, hnew⟩ | ⟨-, hold⟩
    · rw [hs own hnew] at hrow
      exact absurd hrow not_reread_nil
    · exact hk.reread k own hold caller id row hrow
  waiting k own hown caller id hdeliver hnone := by
    rcases stage_update hown with ⟨-, hnew⟩ | ⟨-, hold⟩
    · rw [hs own hnew] at hdeliver
      cases hdeliver
    · exact hk.waiting k own hold caller id hdeliver hnone
  single k own k' other caller caller' id hown hother hdeliver hdeliver' := by
    rcases stage_update hown with ⟨-, hnew⟩ | ⟨-, hold⟩
    · rw [hs own hnew] at hdeliver
      cases hdeliver
    rcases stage_update hother with ⟨-, hnew⟩ | ⟨-, hold'⟩
    · rw [hs other hnew] at hdeliver'
      cases hdeliver'
    · exact hk.single k own k' other caller caller' id hold hold' hdeliver hdeliver'
  uploaded := hk.uploaded
  given := hk.given

theorem reread_append {c : Answered} {row : B2bTransfer} (h : Reread (own ++ [c]) caller id row) :
    Reread own caller id row ∨ c = said caller (.findTransfer id) (.ok (some row)) ∧
      said caller (.deliver id) (.ok true) ∈ own := by
  obtain ⟨p, q, hsplit, hdeliver⟩ := h
  induction q using List.reverseRecOn with
  | nil =>
    obtain ⟨rfl, hc⟩ := List.append_inj' hsplit rfl
    exact .inr ⟨List.singleton_inj.mp hc, hdeliver⟩
  | append_singleton q z _ =>
    rw [← List.cons_append, ← List.append_assoc] at hsplit
    exact .inl ⟨p, q, (List.append_inj' hsplit rfl).1, hdeliver⟩

/-- A call is made: what it finds stands there, what it delivers nobody has delivered before, and
the only certificate that may be new is of a transfer that its program has delivered. -/
structure Called (h : Past) (own : List Answered)
    (m : Made World (Caller × Op) fun i => Except Failure (Reply i.2)) (w v : World) : Prop where
  sound : Sound v
  lasting : Lasting w v
  grows : w.certificates ⊆ v.certificates
  find : ∀ caller id found, m.call = said caller (.findTransfer id) (.ok (some found)) →
    v.findTransfer id = some found
  deliver : ∀ caller id, m.call = said caller (.deliver id) (.ok true) →
    statusOf w id ≠ some .delivered ∧ statusOf v id = some .delivered
  certified : ∀ id, certificatesOf w id = [] → certificatesOf v id = [] ∨
    certified m.call.1.2 = some id ∧ ∃ caller, said caller (.deliver id) (.ok true) ∈ own
  uploaded : ∀ certificate ∈ v.certificates, certificate ∈ w.certificates ∨ ∃ caller,
    said caller (.uploadJson certificate.esgImpact) (.ok certificate.ipfsHash) ∈ h.map Made.call
  given : ∀ caller id buyerId ipfsHash impact certificate,
    m.call = said caller (.createCertificate id buyerId ipfsHash impact) (.ok certificate) →
      certificate = ⟨buyerId, ipfsHash, impact, id⟩ ∧ certificate ∈ v.certificates

section Calls

variable (hk : Kept w₀ h w st) (hr : Recalled h st) (hj : st j = some own) (hm : Called h own m w v)

include hk hr hj hm

theorem reread_record {k : ℕ} {own' : List Answered} {row : B2bTransfer}
    (hk' : Function.update st j (some (own ++ [m.call])) k = some own')
    (hrow : Reread own' caller id row) :
    v.findTransfer id = some row ∧ row.status = .delivered := by
  have hold {own : List Answered} {k : ℕ} (hst : st k = some own)
    (hrow : Reread own caller id row) :
      v.findTransfer id = some row ∧ row.status = .delivered := by
    obtain ⟨hfound, hstatus⟩ := hk.reread k own hst caller id row hrow
    exact ⟨hm.lasting.of_delivered hfound hstatus, hstatus⟩
  rcases stage_update hk' with ⟨-, hnew⟩ | ⟨-, hst⟩
  · cases hnew
    rcases reread_append hrow with hrow | ⟨hc, hdelivered⟩
    · exact hold hj hrow
    · have hfound := hm.find caller id row hc
      have hstatus := hm.lasting.status (hk.delivered caller id (hr j own hj hdelivered))
      rw [statusOf, hfound] at hstatus
      exact ⟨hfound, Option.some.inj hstatus⟩
  · exact hold hst hrow

omit hr in
theorem waiting_record {k : ℕ} {own' : List Answered}
    (hk' : Function.update st j (some (own ++ [m.call])) k = some own')
    (hdelivered : said caller (.deliver id) (.ok true) ∈ own')
    (hnone : ∀ c ∈ own', certified c.1.2 ≠ some id) :
    certificatesOf v id = [] := by
  rcases stage_update hk' with ⟨-, hnew⟩ | ⟨hne, hst⟩
  · cases hnew
    have hw : certificatesOf w id = [] := by
      rcases List.mem_append.mp hdelivered with hdelivered | hlast
      · exact hk.waiting j own hj caller id hdelivered fun c hc =>
          hnone c (List.mem_append_left _ hc)
      · exact hk.sound.uncertified (hm.deliver caller id (List.mem_singleton.mp hlast).symm).1
    exact (hm.certified id hw).resolve_right fun hcert =>
      hnone m.call (List.mem_append_right _ List.mem_cons_self) hcert.1
  · refine (hm.certified id (hk.waiting k own' hst caller id hdelivered hnone)).resolve_right ?_
    rintro ⟨-, caller', hdelivered'⟩
    exact hne (hk.single k own' j own caller caller' id hst hj hdelivered hdelivered')

theorem single_record {k k' : ℕ} {own' other : List Answered} {caller' : Caller}
    (hown : Function.update st j (some (own ++ [m.call])) k = some own')
    (hother : Function.update st j (some (own ++ [m.call])) k' = some other)
    (hc : said caller (.deliver id) (.ok true) ∈ own')
    (hc' : said caller' (.deliver id) (.ok true) ∈ other) :
    k = k' := by
  have hfresh {k : ℕ} {other : List Answered} {caller caller' : Caller} (hst : st k = some other)
      (hc : m.call = said caller (.deliver id) (.ok true)) : said caller' (.deliver id) (.ok true) ∉
        other :=
    fun hmem => (hm.deliver caller id hc).1 (hk.delivered caller' id (hr k other hst hmem))
  rcases stage_update hown with ⟨rfl, hnew⟩ | ⟨-, hst⟩
  · cases hnew
    rcases stage_update hother with ⟨rfl, -⟩ | ⟨-, hst'⟩
    · rfl
    rcases List.mem_append.mp hc with hc | hlast
    · exact hk.single k own k' other caller caller' id hj hst' hc hc'
    · exact absurd hc' (hfresh hst' (List.mem_singleton.mp hlast).symm)
  · rcases stage_update hother with ⟨rfl, hnew'⟩ | ⟨-, hst'⟩
    · cases hnew'
      rcases List.mem_append.mp hc' with hc' | hlast
      · exact hk.single k own' k' own caller caller' id hst hj hc hc'
      · exact absurd hc (hfresh hst (List.mem_singleton.mp hlast).symm)
    · exact hk.single k own' k' other caller caller' id hst hst' hc hc'

theorem kept_record : Kept w₀ (h ++ [m]) v (Function.update st j (some (own ++ [m.call]))) := by
  have hlast {c : Answered} (hc : c ∈ (h ++ [m]).map Made.call) : c ∈ h.map Made.call ∨
      m.call = c := by
    rw [List.map_append, List.mem_append, List.map_singleton, List.mem_singleton] at hc
    exact hc.imp_right Eq.symm
  have hearlier {c : Answered} (hc : c ∈ h.map Made.call) : c ∈ (h ++ [m]).map Made.call := by
    rw [List.map_append]
    exact List.mem_append_left _ hc
  refine ⟨hm.sound, fun caller id found hc => ?_, fun caller id hc => ?_,
    fun k own' hk' caller id row hrow => reread_record hk hr hj hm hk' hrow,
    fun k own' hk' caller id hc hnone => waiting_record hk hj hm hk' hc hnone,
    fun k own' k' other caller caller' id hown hother hc hc' =>
      single_record hk hr hj hm hown hother hc hc',
    fun certificate hmem => ?_, fun caller id buyerId ipfsHash impact certificate hc => ?_⟩
  · rcases hlast hc with hc | hc
    · exact hm.lasting.parties (hk.parties caller id found hc)
    · exact ⟨found, hm.find caller id found hc, rfl, rfl⟩
  · rcases hlast hc with hc | hc
    · exact hm.lasting.status (hk.delivered caller id hc)
    · exact (hm.deliver caller id hc).2
  · rcases hm.uploaded certificate hmem with hold | ⟨caller, hc⟩
    · exact (hk.uploaded certificate hold).imp_right fun ⟨caller, hc⟩ => ⟨caller, hearlier hc⟩
    · exact .inr ⟨caller, hearlier hc⟩
  · rcases hlast hc with hc | hc
    · obtain ⟨hsame, hmem⟩ := hk.given caller id buyerId ipfsHash impact certificate hc
      exact ⟨hsame, hm.grows hmem⟩
    · exact hm.given caller id buyerId ipfsHash impact certificate hc

end Calls

/-! ### Every call -/

def next (t : Letters) (w : World) (caller : Caller) (i : Op) (o : Outcome) :
    Made World (Caller × Op) fun i => Except Failure (Reply i.2) := ⟨w, (caller, i), w.reply t i o⟩

theorem op_of_said {asked : Caller} {i' : Op} {r : Except Failure (Reply i')}
    (hc : (next t w caller i o).call = said asked i' r) :
    i = i' := congrArg (fun c : Answered => c.1.2) hc

theorem deliver_reply {i : Op} {asked : Caller} (hs : Sound w)
    (hc : (next t w caller i o).call = said asked (.deliver id) (.ok true)) :
    statusOf w id = some .accepted ∧ statusOf (w.after t i o) id = some .delivered := by
  obtain rfl := op_of_said hc
  have hreply : w.reply t (.deliver id) o = .ok true := eq_of_heq (Sigma.mk.inj hc).2
  rcases deliver_cases (t := t) w id o with ⟨-, hfound, hafter⟩ | ⟨-, -, -, hother⟩
  · have hstatus := accepted_of_deliverable hs hfound
    obtain ⟨row, hrow, haccepted⟩ := Option.map_eq_some_iff.mp hstatus
    have hid (x : B2bTransfer) : (World.deliveredAs id x).id = x.id := by
      unfold World.deliveredAs
      split <;> rfl
    refine ⟨hstatus, ?_⟩
    rw [hafter, statusOf, findTransfer_map hid rfl, hrow, Option.map_some, Option.map_some,
      World.deliveredAs, if_pos ⟨id_of_findTransfer hrow, haccepted⟩]
  · exact absurd hreply hother

theorem called_plain (hs : Sound w) (hi : certified i = none) (hm : Moved w (w.after t i o)) :
    Called h own (next t w caller i o) w (w.after t i o) where
  sound := hs.moved hm
  lasting := hm.lasting
  grows := hm.certificates ▸ List.Subset.refl _
  find asked id found hc := by
    obtain rfl := op_of_said hc
    have hreply : w.reply t (.findTransfer id) o = .ok (some found) := eq_of_heq (Sigma.mk.inj hc).2
    obtain ⟨htransfers, -, -⟩ :=
      plain_after (t := t) (w := w) (o := o) (i := .findTransfer id) nofun
    rw [findTransfer_congr htransfers]
    exact (PinVerification.Delivery.answer_ok hreply).2
  deliver asked id hc := by
    obtain ⟨haccepted, hdelivered⟩ := deliver_reply hs hc
    exact ⟨by rw [haccepted]; decide, hdelivered⟩
  certified id hnone := .inl (by rw [certificatesOf_congr hm.certificates, hnone])
  uploaded certificate hmem := .inl (hm.certificates ▸ hmem)
  given asked id buyerId ipfsHash impact certificate hc := by
    obtain rfl := op_of_said hc
    cases hi

theorem sound_certify (hs : Sound w) {row : B2bTransfer} {certificate : Certificate}
    (hrow : w.findTransfer certificate.transferId = some row) (hmatches : Matches row certificate)
    (hnone : certificatesOf w certificate.transferId = []) :
    Sound { w with certificates := w.certificates ++ [certificate] } where
  keys := hs.keys
  taken := hs.taken
  truthful other hmem := by
    rcases List.mem_append.mp hmem with hmem | hlast
    · exact hs.truthful other hmem
    · obtain rfl := List.mem_singleton.mp hlast
      exact ⟨row, hrow, hmatches⟩
  single := by
    rw [List.map_append, List.nodup_append]
    refine ⟨hs.single, List.nodup_singleton _, fun x hx y hy he => ?_⟩
    rw [List.map_singleton, List.mem_singleton] at hy
    obtain ⟨other, hother, rfl⟩ := List.mem_map.mp hx
    exact List.filter_eq_nil_iff.mp hnone other hother (beq_iff_eq.mpr (he.trans hy))

theorem certify_reply {asked : Caller} {x buyerId buyerId' ipfsHash ipfsHash' : String}
    {impact impact' : EsgImpact} {certificate : Certificate}
    (hc : (next t w caller (.createCertificate id buyerId ipfsHash impact) o).call =
      said asked (.createCertificate x buyerId' ipfsHash' impact') (.ok certificate)) :
    o.delivery.applied = true ∧ certificate = ⟨buyerId, ipfsHash, impact, id⟩ ∧
      certificate = ⟨buyerId', ipfsHash', impact', x⟩ := by
  have hop := op_of_said hc
  cases hop
  have hreply : w.reply t (.createCertificate id buyerId ipfsHash impact) o = .ok certificate :=
    eq_of_heq (Sigma.mk.inj hc).2
  obtain ⟨hdone, hsame⟩ := PinVerification.Delivery.answer_ok hreply
  exact ⟨by rw [hdone]; rfl, hsame.symm, hsame.symm⟩

theorem called_certify {buyerId ipfsHash : String} {impact : EsgImpact} (hk : Kept w₀ h w st)
    (hr : Recalled h st) (hj : st j = some own)
    (hallowed : Allowed own (caller, .createCertificate id buyerId ipfsHash impact)) :
    Called h own (next t w caller (.createCertificate id buyerId ipfsHash impact) o) w
      (w.after t (.createCertificate id buyerId ipfsHash impact) o) := by
  obtain ⟨row, hreread, rfl, rfl, hupload, hnone⟩ := hallowed
  obtain ⟨hrow, hstatus⟩ := hk.reread j own hj caller id row hreread
  obtain ⟨p, q, hsplit, hp⟩ := hreread
  have hdelivered : said caller (.deliver id) (.ok true) ∈ own := hsplit ▸ List.mem_append_left _ hp
  have hother {asked : Caller} {i : Op} {r : Except Failure (Reply i)} (hi : certified i = none) :
      (next t w caller
        (.createCertificate id row.buyerId ipfsHash (esgImpact row.materials)) o).call ≠
        said asked i r := fun hc => by
    rw [← op_of_said hc] at hi
    cases hi
  rw [after_createCertificate, World.update]
  cases happlied : o.delivery.applied with
  | false =>
    have hm : Moved w w := moved_same hk.sound rfl rfl fun _ => rfl
    refine ⟨hk.sound, hm.lasting, List.Subset.refl _, fun _ _ _ hc => absurd hc (hother rfl),
      fun _ _ hc => absurd hc (hother rfl), fun x hx => .inl hx, fun certificate hmem =>
        .inl hmem, ?_⟩
    exact fun _ _ _ _ _ _ hc => by
      rw [(certify_reply hc).1] at happlied
      cases happlied
  | true =>
    have hs : Sound { w with
        certificates :=
          w.certificates ++ [⟨row.buyerId, ipfsHash, esgImpact row.materials, id⟩] } :=
      sound_certify hk.sound hrow ⟨hstatus, rfl, rfl⟩
        (hk.waiting j own hj caller id hdelivered hnone)
    refine ⟨hs, fun x old hold => ⟨old, hold, rfl, rfl, fun _ => rfl⟩, List.subset_append_left _ _,
      fun _ _ _ hc => absurd hc (hother rfl), fun _ _ hc => absurd hc (hother rfl), fun x hx => ?_,
      fun certificate hmem => ?_, ?_⟩
    · by_cases hid : id = x
      · exact .inr ⟨congrArg some hid, caller, hid ▸ hdelivered⟩
      · refine .inl ?_
        unfold certificatesOf at hx ⊢
        rw [if_pos rfl, List.filter_append, hx, List.nil_append]
        exact List.filter_eq_nil_iff.mpr fun certificate hmem => by
          rw [List.mem_singleton.mp hmem, beq_iff_eq]
          exact hid
    · rcases List.mem_append.mp hmem with hmem | hlast
      · exact .inl hmem
      · cases List.mem_singleton.mp hlast
        exact .inr ⟨caller, hr j own hj hupload⟩
    · intro asked x buyerId hash impact certificate hc
      obtain ⟨-, hwritten, hsame⟩ := certify_reply hc
      exact ⟨hsame, hwritten ▸ List.mem_append_right _ List.mem_cons_self⟩

/-! ### Every run -/

/-- An acceptance that is written still finds its transfer REQUESTED. -/
def Timely (c : Race) : RaceEvent → Prop
  | .advance j o => ∀ caller tx id centerId lines notes,
      pending c j = some (caller, .accept tx id centerId lines notes) → o.delivery.applied = true →
        statusOf c.world id = some .requested
  | _ => True

theorem call_kept (hk : Kept w₀ h w st) (hr : Recalled h st) (hj : st j = some own)
    (hallowed : Allowed own (caller, i))
    (htimely : ∀ tx id centerId lines notes, i = .accept tx id centerId lines notes →
      o.delivery.applied = true → statusOf w id = some .requested) :
    Kept w₀ (h ++ [next t w caller i o]) (w.after t i o)
      (Function.update st j (some (own ++ [(next t w caller i o).call]))) := by
  refine kept_record hk hr hj ?_
  have haccept : ∀ tx id centerId lines notes, i = .accept tx id centerId lines notes →
      centerOf w id = some centerId ∧
        (o.delivery.applied = true → statusOf w id = some .requested) := by
    rintro tx id centerId lines notes rfl
    obtain ⟨found, hfound, rfl⟩ := hallowed
    obtain ⟨row, hrow, hcenter, -⟩ := hk.parties caller id found (hr j own hj hfound)
    exact ⟨by rw [centerOf, hrow, Option.map_some, hcenter], htimely tx id _ lines notes rfl⟩
  cases i with
  | createCertificate id buyerId ipfsHash impact => exact called_certify hk hr hj hallowed
  | _ => exact called_plain hk.sound rfl (moved_after hk.sound rfl haccept)

theorem kept_quiescent (hw : Sound w) : Kept w [] w fun _ => none where
  sound := hw
  parties _ _ _ hc := by cases hc
  delivered _ _ hc := by cases hc
  reread _ _ hj := by cases hj
  waiting _ _ hj := by cases hj
  single _ _ _ _ _ _ _ hj := by cases hj
  uploaded certificate hmem := .inl hmem
  given _ _ _ _ _ _ hc := by cases hc

/-- Along every timely run from books in order, whoever is cut off: a certificate is of a delivered
transfer, for its buyer, and of the materials that left the centre's stock for it, under the hash
that their upload was answered with; no transfer has two; and who is answered with a certificate has
bought the transfer and finds the certificate in the books. -/
theorem certificates_sound (t : Letters) {w : World} (hw : Sound w) {es : List RaceEvent} {c : Race}
    (htimely : Along (system t).step Timely (quiescent w) es)
    (hrun : run (system t).step (quiescent w) es = some c) :
    (∀ certificate ∈ c.world.certificates, ∃ row, c.world.findTransfer certificate.transferId =
      some row ∧
      Matches row certificate ∧
      movementsOf c.world row.id = outward row.centerId (.transfer row.id) row.materials ∧
      (certificate ∈ w.certificates ∨ ∃ caller, said caller (.uploadJson certificate.esgImpact)
        (.ok certificate.ipfsHash) ∈ (calls (system t) (quiescent w) es).map Made.call)) ∧
    (c.world.certificates.map Certificate.transferId).Nodup ∧
    ∀ j own id buyerId transfer certificate,
      c.tasks j =
        some ⟨own, .done (.receiveTransfer id buyerId, .ok (.received transfer certificate))⟩ →
        certificate ∈ c.world.certificates ∧ certificate.transferId = id ∧
        c.world.findTransfer id = some transfer ∧ transfer.buyerId = buyerId := by
  obtain ⟨-, hrecalled, hkept⟩ :=
    run_remembering (S := system t) (C := Timely) (K := Kept w) rfl rfl
    (fun caller => Keeps.mono (fun _ _ _ => trivial) (keeps_program t caller))
    (fun h w' st j hk _ => hk.set fun own hown => (Option.some.inj hown).symm)
    (fun h c j o own i hr hk hj hi hallowed hC => call_kept hk hr hj hallowed
      fun tx id centerId lines notes hop => hC i.1 tx id centerId lines notes (by rw [hi, ← hop]))
    (fun h w' st j hk => hk.set fun own hown => by cases hown)
    (fun h c d w' hk _ hout => hk.moved (moved_outside hk.sound hout)) (fun _ => rfl)
    (kept_quiescent hw) htimely hrun
  refine ⟨fun certificate hmem => ?_, hkept.sound.single,
    fun j own id buyerId transfer certificate hj => ?_⟩
  · obtain ⟨row, hrow, hmatches⟩ := hkept.sound.truthful certificate hmem
    refine ⟨row, hrow, hmatches, ?_, hkept.uploaded certificate hmem⟩
    rw [hkept.sound.taken, id_of_findTransfer hrow, hrow, recorded,
      if_neg (by rw [hmatches.1]; decide)]
  · have hends :=
      run_ends (fun caller => keeps_program t caller) (fun _ _ ht => by cases ht) hrun j _ hj
    obtain ⟨hreread, ⟨found, hfound, hbuyer⟩, ipfsHash, hcall⟩ := hends
    have hown := hrecalled j own (stages_eq hj)
    obtain ⟨hsame, hmem⟩ := hkept.given _ _ _ _ _ _ (hown hcall)
    obtain ⟨hrow, -⟩ := hkept.reread j own (stages_eq hj) _ _ _ hreread
    obtain ⟨row, hrow', -, hbuyer'⟩ := hkept.parties _ _ _ (hown hfound)
    rw [hrow] at hrow'
    cases hrow'
    exact ⟨hmem, congrArg Certificate.transferId hsame, hrow, hbuyer'.trans hbuyer⟩

/-! ### One transfer -/

theorem askedFor_sound : Sound askedFor where
  keys := askedFor_orderly.keys
  taken := askedFor_orderly.taken
  truthful _ hmem := by cases hmem
  single := List.nodup_nil

/-- `Timely` as a test. -/
def timely (c : Race) : RaceEvent → Bool
  | .advance j o =>
    match pending c j with
    | some (_, .accept _ id _ _ _) => !o.delivery.applied || statusOf c.world id == some .requested
    | _ => true
  | _ => true

theorem timely_of_test {c : Race} {e : RaceEvent} (h : timely c e = true) : Timely c e := by
  cases e with
  | advance j o =>
    intro caller tx id centerId lines notes hi happlied
    simp only [timely, hi, happlied] at h
    simpa using h
  | _ => trivial

/-- Eight kilograms are accepted, and received. -/
theorem certificates_sound_received : ∃ c,
    run (system normalLetters).step (quiescent askedFor) acceptedThenReceived = some c ∧
    c.world.certificates.map (fun x => (x.transferId, x.buyerId, x.esgImpact.materialsBreakdown)) =
      [("transfer", "company", [("PET", 8)])] ∧
    ∀ certificate ∈ c.world.certificates, ∃ row, c.world.findTransfer certificate.transferId =
      some row ∧
      Matches row certificate := by
  obtain ⟨c, hc, hcertificates⟩ := Option.map_eq_some_iff.mp
    (show (run (system normalLetters).step (quiescent askedFor) acceptedThenReceived).map (fun c =>
      c.world.certificates.map fun x => (x.transferId, x.buyerId, x.esgImpact.materialsBreakdown)) =
        some [("transfer", "company", [("PET", 8)])] by decide +kernel)
  have htimely : Along (system normalLetters).step Timely
    (quiescent askedFor) acceptedThenReceived :=
    along_mono (fun _ _ h => timely_of_test h) (by decide +kernel)
  refine ⟨c, hc, hcertificates, fun certificate hmem => ?_⟩
  obtain ⟨row, hrow, hmatches, -⟩ :=
    (certificates_sound normalLetters askedFor_sound htimely hc).1 certificate hmem
  exact ⟨row, hrow, hmatches⟩

end Livora.TransferCertificates
