import Livora.ArcoCancellations
import Livora.TransitionRuns

/-! `AdminKycService.createKycApplication` and `updateUserKycStatus`, step after step: each writes
the user and the application on its own, and some of the errors between the two are dropped. -/

namespace Livora.KycReviews

open BackOffice (Role)
open ArcoCancellations TransitionRuns

structure Desk where
  users : List User
  storeProfiles : List StoreProfile
  /-- The newest first. -/
  kycApplications : List KycApplication
  /-- The application of every `OBSERVED` that was written, kept for statements only. -/
  observations : List String
  /-- The applications that a review has opened as `OBSERVED`, kept for statements only. -/
  openedObserved : List String

def Desk.user (d : Desk) (id : String) : Option User := d.users.find? fun u => u.id = id

def Desk.store (d : Desk) (id : String) : Option StoreProfile :=
  d.storeProfiles.find? fun p => p.userId = id

/-- `findFirst` by `createdAt`, descending. -/
def Desk.latest (d : Desk) (id : String) : Option KycApplication :=
  d.kycApplications.find? fun k => k.userId = id

def truthy (s : Option String) : Bool := s.any (· ≠ "")

/-- `a || b` -/
def orElse (a b : Option String) : Option String := if truthy a then a else b

structure CreateKycApplicationDto where
  documentUrl : Option String
  documentUrlBack : Option String
  selfieUrl : Option String
  documentNumber : Option String
  transportType : Option String
  vehiclePlate : Option String
  associationName : Option String
  taxIdRuc : Option String
  businessName : Option String
  bankCci : Option String

structure UpdateKycStatusDto where
  status : KycStatus
  observationNotes : Option String

/-- The writes that fail. -/
structure Faults where
  user : Bool
  store : Bool
  name : Bool
  application : Bool
  /-- The account is sponsored on the chain when that is asked for. -/
  sponsored : Bool

/-! ### `createKycApplication` -/

def Desk.updateUser (d : Desk) (id : String) (f : User → User) : Desk :=
  { d with users := updateWhere (·.id = id) f d.users }

def apply (dto : CreateKycApplicationDto) (now : ℕ) (u : User) : User :=
  { u with
    profilePhotoUrl := dto.selfieUrl.or u.profilePhotoUrl
    dniDocumentNumber := dto.documentNumber.or u.dniDocumentNumber
    dniPhotoUrl := dto.documentUrl.or u.dniPhotoUrl
    selfiePhotoUrl := dto.selfieUrl.or u.selfiePhotoUrl
    kycStatus := .pending
    updatedAt := now }

def applyStore (dto : CreateKycApplicationDto) (now : ℕ) (p : StoreProfile) : StoreProfile :=
  { p with
    ruc := dto.taxIdRuc.getD p.ruc
    businessName := dto.businessName.getD p.businessName
    bankAccount := dto.bankCci.getD p.bankAccount
    logoUrl := dto.documentUrl.or p.logoUrl
    updatedAt := now }

def rename (name : Option String) (now : ℕ) (u : User) : User :=
  { u with name := name, updatedAt := now }

def newApplication (userId : String) (dto : CreateKycApplicationDto) (id : String) (now : ℕ) :
    KycApplication :=
  ⟨id, .pending, none, dto.documentNumber, dto.documentUrl, dto.documentUrlBack, dto.selfieUrl,
    dto.taxIdRuc,
    dto.businessName, dto.transportType, dto.vehiclePlate, dto.bankCci, dto.associationName, none,
      0, userId,
    now, now⟩

/-- The user and the store profile, before the application is created; no error of theirs is passed
on. -/
def prepare (userId : String) (dto : CreateKycApplicationDto) (now : ℕ) (faults : Faults)
    (d : Desk) : Desk :=
  let d := if faults.user then d else d.updateUser userId (apply dto now)
  if truthy dto.taxIdRuc || truthy dto.businessName || truthy dto.documentUrl then
    let d := if faults.store then d else
      { d with storeProfiles := updateWhere (·.userId = userId) (applyStore dto now) d.storeProfiles }
    if truthy dto.businessName && !faults.name then
      d.updateUser userId (rename dto.businessName now)
    else d
  else d

def createKycApplication (userId : String) (dto : CreateKycApplicationDto) (id : String) (now : ℕ)
    (faults : Faults) (d : Desk) : Except String KycApplication × Desk :=
  let d := prepare userId dto now faults d
  if faults.application then (.error "kycApplication.create", d)
  else if (d.user userId).isNone then (.error "Foreign key constraint violated", d)
  else
    let app := newApplication userId dto id now
    (.ok app, { d with kycApplications := app :: d.kycApplications })

/-! ### `updateUserKycStatus` -/

inductive Reply where
  | application (app : KycApplication)
  | status (userId : String) (status : KycStatus)

def nextRetry (dto : UpdateKycStatusDto) (currentRetry : ℤ) : ℤ :=
  if dto.status = .observed then currentRetry + 1 else currentRetry

/-- The fourth observation is a rejection. -/
def nextStatus (dto : UpdateKycStatusDto) (currentRetry : ℤ) : KycStatus :=
  if dto.status = .observed ∧ 3 < currentRetry + 1 then .rejected else dto.status

def Desk.note (d : Desk) (app : KycApplication) : Desk :=
  if app.status = .observed then { d with observations := app.id :: d.observations } else d

def Desk.insert (d : Desk) (app : KycApplication) : Desk :=
  { d with
    kycApplications := app :: d.kycApplications
    openedObserved :=
      if app.status = .observed then app.id :: d.openedObserved else d.openedObserved }

def reviewed (dto : UpdateKycStatusDto) (now : ℕ) (app : KycApplication) : KycApplication :=
  { app with
    status := nextStatus dto app.retryCount
    observationNotes := dto.observationNotes.or app.observationNotes
    retryCount := nextRetry dto app.retryCount
    updatedAt := now }

def Desk.review (d : Desk) (dto : UpdateKycStatusDto) (now : ℕ) (k : KycApplication) : Desk :=
  { d with kycApplications := updateWhere (·.id = k.id) (reviewed dto now) d.kycApplications }.note
    (reviewed dto now k)

def storeApplication (user : User) (profile : Option StoreProfile) (dto : UpdateKycStatusDto)
    (id : String) (now : ℕ) : KycApplication :=
  { id := id
    status := nextStatus dto 0
    documentType := some "RUC"
    documentNumber := orElse (profile.map StoreProfile.ruc) none
    documentUrl := orElse (profile.bind StoreProfile.logoUrl) none
    documentUrlBack := none
    selfieUrl := none
    taxIdRuc := orElse (profile.map StoreProfile.ruc) none
    businessName :=
      orElse (orElse (profile.map StoreProfile.businessName) user.name) (some "Comercio Aliado")
    transportType := none
    vehiclePlate := none
    bankCci := orElse (profile.map StoreProfile.bankAccount) none
    associationName := none
    observationNotes := orElse dto.observationNotes none
    retryCount := 0
    userId := user.id
    createdAt := now
    updatedAt := now }

/-- The application, updated or for a store created; `none` where the update throws. -/
def reviewApplication (user : User) (kycApp : Option KycApplication) (dto : UpdateKycStatusDto)
    (id : String) (now : ℕ) (faults : Faults) (d : Desk) : Option (Option KycApplication × Desk) :=
  match kycApp with
  | some app =>
    if faults.application then none
    else some (some (reviewed dto now app), d.review dto now app)
  | none =>
    if user.role = .tienda ∧ faults.application = false then
      let app := storeApplication user (d.store user.id) dto id now
      some (some app, (d.insert app).note app)
    else some (none, d)

/-- What is written of the user; three of the statuses have a branch. -/
def decision (user : User) (kycApp : Option KycApplication) (dto : UpdateKycStatusDto)
    (status : KycStatus) (now : ℕ) (faults : Faults) : Option (User → User) :=
  match status with
  | .approved => some fun u =>
    { u with
      isActive := true
      kycStatus := .approved
      kycVerifiedAt := some now
      profilePhotoUrl :=
        if user.role = .recolector ∧ truthy (kycApp.bind KycApplication.selfieUrl) = true then
          kycApp.bind KycApplication.selfieUrl
        else u.profilePhotoUrl
      isWalletSponsored :=
        u.isWalletSponsored ||
          (truthy user.walletAddress && !user.isWalletSponsored && faults.sponsored)
      updatedAt := now }
  | .rejected => some fun u =>
    { u with
      isActive := if user.role = .recolector then false else user.isActive
      kycStatus := .rejected
      kycRejectionReason :=
        orElse dto.observationNotes (some "Rechazado en revisión administrativa")
      updatedAt := now }
  | .observed => some fun u =>
    { u with
      kycStatus := .observed
      kycRejectionReason :=
        orElse dto.observationNotes (some "Observado en revisión administrativa")
      updatedAt := now }
  | _ => none

def updateUserKycStatus (userId : String) (dto : UpdateKycStatusDto) (id : String) (now : ℕ)
    (faults : Faults) (d : Desk) : Except String Reply × Desk :=
  match d.user userId with
  | none => (.error "Usuario no encontrado", d)
  | some user =>
    let kycApp := d.latest userId
    let newStatus := nextStatus dto ((kycApp.map KycApplication.retryCount).getD 0)
    match reviewApplication user kycApp dto id now faults d with
    | none => (.error "kycApplication.update", d)
    | some (updatedApp, d) =>
      let reply := updatedApp.elim (.status userId newStatus) .application
      match decision user kycApp dto newStatus now faults with
      | none => (.ok reply, d)
      | some f =>
        if faults.user then (.error "user.update", d) else (.ok reply, d.updateUser userId f)

/-! ### Runs -/

/-- A call with the identifier of the row it may create, its time and the writes that fail. -/
inductive Event where
  | create (userId : String) (dto : CreateKycApplicationDto) (id : String) (now : ℕ)
    (faults : Faults)
  | review (userId : String) (dto : UpdateKycStatusDto) (id : String) (now : ℕ) (faults : Faults)

def Event.userId : Event → String
  | .create userId _ _ _ _ => userId
  | .review userId _ _ _ _ => userId

def Event.id : Event → String
  | .create _ _ id _ _ => id
  | .review _ _ id _ _ => id

def Event.perform (d : Desk) : Event → Bool × Desk
  | .create userId dto id now faults =>
    let r := createKycApplication userId dto id now faults d
    (r.1.toOption.isSome, r.2)
  | .review userId dto id now faults =>
    let r := updateUserKycStatus userId dto id now faults d
    (r.1.toOption.isSome, r.2)

/-- New identifiers have not been given before. -/
def step (d : Desk) (e : Event) : Option Desk :=
  if d.kycApplications.any (·.id = e.id) then none else some (e.perform d).2

def start (users : List User) (storeProfiles : List StoreProfile) : Desk :=
  ⟨users, storeProfiles, [], [], []⟩

def Agree (d : Desk) (id : String) : Prop :=
  ∀ u app, d.user id = some u → d.latest id = some app → u.kycStatus = app.status

/-- A call that returns leaves its user in agreement, and no application has been observed a fourth
time. -/
structure Good (d : Desk) (e : Event) : Prop where
  agree : (e.perform d).1 = true → Agree (e.perform d).2 e.userId
  observed : ∀ id, (e.perform d).2.observations.count id ≤ 3

def Decided (status : KycStatus) : Prop :=
  status = .approved ∨ status = .rejected ∨ status = .observed

/-- An application is not created past a failed update of a user who is not pending; no application
is given a status that the user is not given, unless it is the user's; and one that was opened as
observed is not observed for the third time after that. -/
def Certain (d : Desk) : Event → Prop
  | .create userId _ _ _ faults =>
    faults.user = true → faults.application = false → ∀ u, d.user userId = some u →
      u.kycStatus = .pending
  | .review userId dto _ _ faults =>
    faults.application = false → ∀ u, d.user userId = some u →
      let app := d.latest userId
      let status := nextStatus dto ((app.map KycApplication.retryCount).getD 0)
      (app.isSome = true ∨ u.role = .tienda → Decided status ∨ u.kycStatus = status) ∧
        ∀ k, app = some k → k.id ∈ d.openedObserved → status = .observed → k.retryCount ≠ 2

/-! ### What a call does -/

variable {d : Desk} {userId id : String} {now : ℕ} {faults : Faults} {user : User}
    {dto : UpdateKycStatusDto}

@[simp] theorem note_user (app : KycApplication) (x : String) : (d.note app).user x = d.user x := by
  unfold Desk.note
  split <;> rfl

@[simp] theorem note_latest (app : KycApplication) (x : String) :
    (d.note app).latest x = d.latest x := by
  unfold Desk.note
  split <;> rfl

theorem updateUser_user {x : String} (f : User → User) (hf : ∀ u, (f u).id = u.id) :
    (d.updateUser x f).user x = (d.user x).map f := by
  have hfind := find?_updateWhere (p := fun u : User => decide (u.id = x))
    (q := fun u => decide (u.id = x)) (f := f) (fun u => by rw [hf]) d.users
  rw [Desk.user, Desk.updateUser, hfind, ← Desk.user]
  cases hu : d.user x with
  | none => rfl
  | some u =>
    have hid : u.id = x := by simpa using List.find?_some hu
    simp [hid]

theorem nextStatus_observed {r : ℤ} : nextStatus dto r = .observed ↔ dto.status = .observed ∧
    r + 1 ≤ 3 := by
  unfold nextStatus
  split <;> grind

theorem decision_none {app : Option KycApplication} {status : KycStatus} :
    decision user app dto status now faults = none ↔ ¬ Decided status := by
  cases status <;> simp [decision, Decided]

theorem decision_some {app : Option KycApplication} {status : KycStatus} {f : User → User}
    (h : decision user app dto status now faults = some f) (u : User) :
    (f u).id = u.id ∧ (f u).kycStatus = status := by
  cases status <;> cases h <;> exact ⟨rfl, rfl⟩

theorem reviewApplication_spec {r : Option KycApplication} {d' : Desk} (hid : user.id = userId)
    (h : reviewApplication user (d.latest userId) dto id now faults d = some (r, d')) :
    (∀ x, d'.user x = d.user x) ∧ (d'.latest userId).map KycApplication.status =
      if (d.latest userId).isSome ∨ user.role = .tienda ∧ faults.application = false then
        some (nextStatus dto (((d.latest userId).map KycApplication.retryCount).getD 0))
      else none := by
  cases hk : d.latest userId with
  | some app =>
    rw [hk] at h
    simp only [reviewApplication] at h
    split at h <;> cases h
    refine ⟨fun x => note_user _ _, ?_⟩
    rw [Desk.review]
    have hfind := find?_updateWhere (p := fun k : KycApplication => decide (k.id = app.id))
      (q := fun k => decide (k.userId = userId)) (f := reviewed dto now) (fun _ =>
        rfl) d.kycApplications
    have hfound : (d.kycApplications.find? fun k => decide (k.userId = userId)) = some app := hk
    rw [note_latest, Desk.latest, hfind, hfound]
    simp [reviewed]
  | none =>
    rw [hk] at h
    simp only [reviewApplication] at h
    split at h <;> cases h
    · rename_i hrole
      refine ⟨fun x => note_user _ _, ?_⟩
      rw [note_latest, if_pos (Or.inr hrole)]
      simp [Desk.latest, Desk.insert, storeApplication, hid]
    · rename_i hrole
      refine ⟨fun x => rfl, ?_⟩
      rw [hk, if_neg (by simpa using hrole)]
      rfl

theorem agree_iff {u : User} {o : Option KycStatus} (hu : d.user userId = some u)
    (hl : (d.latest userId).map KycApplication.status = o) :
    Agree d userId ↔ ∀ status, o = some status → u.kycStatus = status := by
  subst hl
  constructor
  · intro h status hs
    obtain ⟨app, happ, rfl⟩ := Option.map_eq_some_iff.mp hs
    exact h u app hu happ
  · intro h u' app hu' happ
    obtain rfl : u = u' := Option.some.inj (hu.symm.trans hu')
    exact h app.status (by rw [happ]; rfl)

theorem review_agree_iff :
    (((Event.review userId dto id now faults).perform d).1 = true →
        Agree ((Event.review userId dto id now faults).perform d).2 userId) ↔
      (faults.application = false → ∀ u, d.user userId = some u →
        (d.latest userId).isSome = true ∨ u.role = .tienda →
          Decided (nextStatus dto (((d.latest userId).map KycApplication.retryCount).getD 0)) ∨
            u.kycStatus =
              nextStatus dto (((d.latest userId).map KycApplication.retryCount).getD 0)) := by
  generalize hstatus : nextStatus dto (((d.latest userId).map KycApplication.retryCount).getD 0) =
    status
  unfold Event.perform updateUserKycStatus
  cases hu : d.user userId with
  | none => exact iff_of_true (fun h => by simp [hu, Except.toOption] at h) fun _ u h => by cases h
  | some user =>
    have hid : user.id = userId := by simpa using List.find?_some hu
    simp only [hu, hstatus]
    cases hr : reviewApplication user (d.latest userId) dto id now faults d with
    | none =>
      have hfault : faults.application = true := by
        unfold reviewApplication at hr
        split at hr <;> split at hr <;> simp_all
      simp [Except.toOption, hfault]
    | some r =>
      obtain ⟨app, d'⟩ := r
      obtain ⟨husers, hlatest⟩ := reviewApplication_spec hid hr
      rw [hstatus] at hlatest
      have hu' : d'.user userId = some user := (husers userId).trans hu
      have hsome : ∀ u, some user = some u → u = user := fun u h => (Option.some.inj h).symm
      cases hd : decision user (d.latest userId) dto status now faults with
      | none =>
        have hundecided := decision_none.mp hd
        simp only [Except.toOption, Option.isSome_some, forall_const]
        rw [agree_iff hu' hlatest]
        cases hfault : faults.application with
        | true =>
          have hnone : d.latest userId = none := by
            unfold reviewApplication at hr
            split at hr <;> simp_all
          simp [hnone]
        | false =>
          constructor
          · intro h _ u he hwrites
            cases he
            exact Or.inr (h status (if_pos (hwrites.imp_right fun ht => ⟨ht, rfl⟩)))
          · intro h s hs
            split at hs
            · rename_i hwrites
              cases hs
              exact (h rfl user rfl (hwrites.imp_right And.left)).resolve_left hundecided
            · cases hs
      | some f =>
        have hdecided : Decided status := by
          by_contra hno
          rw [decision_none.mpr hno] at hd
          cases hd
        refine iff_of_true ?_ fun _ u _ _ => Or.inl hdecided
        simp only
        split
        · intro h
          simp [Except.toOption] at h
        · intro _
          have hafter : (d'.updateUser userId f).user userId = some (f user) := by
            rw [updateUser_user f fun u => (decision_some hd u).1, hu']
            rfl
          have hkeep : ((d'.updateUser userId f).latest userId).map KycApplication.status =
              _ := hlatest
          rw [agree_iff hafter hkeep]
          intro s hs
          split at hs <;> cases hs
          exact (decision_some hd user).2

/-! ### Applications -/

theorem prepare_frame (userId : String) (dto : CreateKycApplicationDto) (now : ℕ) (faults : Faults)
    (d : Desk) :
    (prepare userId dto now faults d).kycApplications = d.kycApplications ∧
      (prepare userId dto now faults d).observations = d.observations ∧
      (prepare userId dto now faults d).openedObserved = d.openedObserved := by
  unfold prepare
  grind [Desk.updateUser]

theorem prepare_user (userId : String) (dto : CreateKycApplicationDto) (now : ℕ) (faults : Faults)
    (d : Desk) :
    ((prepare userId dto now faults d).user userId).map User.kycStatus =
      (d.user userId).map fun u => if faults.user then u.kycStatus else .pending := by
  have hkeep : ∀ (d : Desk) (name : Option String),
      ((d.updateUser userId (rename name now)).user userId).map User.kycStatus =
        (d.user userId).map User.kycStatus := fun d name => by
    rw [updateUser_user (rename name now) fun _ => rfl, Option.map_map]
    rfl
  have hfirst : ((if faults.user then d else d.updateUser userId (apply dto now)).user userId).map
      User.kycStatus = (d.user userId).map fun u =>
        if faults.user then u.kycStatus else .pending := by
    cases faults.user with
    | true => rfl
    | false =>
      rw [if_neg (by simp), updateUser_user (apply dto now) fun _ => rfl, Option.map_map]
      rfl
  unfold prepare
  simp only
  split
  · split
    · rw [hkeep, ← hfirst]
      split <;> rfl
    · rw [← hfirst]
      split <;> rfl
  · exact hfirst

theorem create_agree_iff {dto : CreateKycApplicationDto} :
    (((Event.create userId dto id now faults).perform d).1 = true →
        Agree ((Event.create userId dto id now faults).perform d).2 userId) ↔
      (faults.user = true → faults.application = false → ∀ u, d.user userId = some u →
        u.kycStatus = .pending) := by
  have hstatus := prepare_user userId dto now faults d
  simp only [Event.perform, createKycApplication]
  cases hfault : faults.application with
  | true => simp [Except.toOption]
  | false =>
    simp only [Bool.false_eq_true, if_false]
    generalize prepare userId dto now faults d = d' at hstatus
    cases hu : d.user userId with
    | none =>
      rw [hu] at hstatus
      have hnone : d'.user userId = none := Option.map_eq_none_iff.mp hstatus
      simp [hnone, Except.toOption]
    | some u =>
      rw [hu] at hstatus
      obtain ⟨u', hu', hstatus⟩ := Option.map_eq_some_iff.mp hstatus
      rw [hu', Option.isNone_some, if_neg (by simp)]
      simp only [Except.toOption, Option.isSome_some, forall_const]
      have hlatest : ({ d' with kycApplications := newApplication userId dto id now :: d'.kycApplications
          }.latest userId).map KycApplication.status = some .pending := by
        simp [Desk.latest, newApplication]
      have huser : ({ d' with kycApplications := newApplication userId dto id now :: d'.kycApplications
          } : Desk).user userId = some u' := hu'
      rw [agree_iff huser hlatest]
      constructor
      · intro h hf u₂ hu₂
        cases hu₂
        have hkept : u'.kycStatus = u.kycStatus := hstatus.trans (if_pos hf)
        rw [← hkept]
        exact h .pending rfl
      · rintro h s hs
        cases hs
        rw [hstatus]
        split
        · rename_i hf
          exact h hf u rfl
        · rfl

/-- How often each application has been observed: up to three times by its retries, and once more if
it was opened that way. -/
structure Counted (d : Desk) : Prop where
  ids : (d.kycApplications.map KycApplication.id).Nodup
  fresh : ∀ id, id ∉ d.kycApplications.map KycApplication.id →
    d.observations.count id = 0 ∧ id ∉ d.openedObserved
  counts : ∀ k ∈ d.kycApplications, 0 ≤ k.retryCount ∧
    (d.observations.count k.id : ℤ) = min k.retryCount 3 + if k.id ∈ d.openedObserved then 1 else 0

theorem counted_cons {k : KycApplication} (opened : Bool) (hc : Counted d)
    (hid : k.id ∉ d.kycApplications.map KycApplication.id) (hretry : k.retryCount = 0) :
    Counted { d with
      kycApplications := k :: d.kycApplications
      observations := if opened then k.id :: d.observations else d.observations
      openedObserved := if opened then k.id :: d.openedObserved else d.openedObserved } := by
  obtain ⟨hcount, hopened⟩ := hc.fresh k.id hid
  refine ⟨List.nodup_cons.mpr ⟨hid, hc.ids⟩, fun id h => ?_, fun k' hk' => ?_⟩
  · simp only [List.map_cons, List.mem_cons, not_or] at h
    obtain ⟨hne, hnot⟩ := h
    have hfresh := hc.fresh id hnot
    cases opened <;> simp [hne, Ne.symm hne, hfresh]
  · rcases List.mem_cons.mp hk' with rfl | hk'
    · cases opened <;> simp [hcount, hopened, hretry]
    · have hne : k'.id ≠ k.id := fun h => hid (h ▸ List.mem_map_of_mem hk')
      have hcounts := hc.counts k' hk'
      cases opened <;> simpa [hne, Ne.symm hne] using hcounts

theorem count_note (app : KycApplication) (x : String) : (d.note app).observations.count x =
    d.observations.count x + if app.status = .observed ∧ app.id = x then 1 else 0 := by
  unfold Desk.note
  by_cases hs : app.status = .observed
  · rw [if_pos hs, List.count_cons]
    simp [hs, beq_iff_eq]
  · simp [hs]

theorem note_frame (app : KycApplication) : (d.note app).kycApplications = d.kycApplications ∧
    (d.note app).openedObserved = d.openedObserved := by
  unfold Desk.note
  split <;> exact ⟨rfl, rfl⟩

theorem map_id_reviewed (x : String) (ks : List KycApplication) :
    (updateWhere (·.id = x) (reviewed dto now) ks).map KycApplication.id =
      ks.map KycApplication.id := by
  rw [updateWhere, List.map_map]
  refine List.map_congr_left fun k _ => ?_
  simp only [Function.comp_apply]
  split <;> rfl

theorem retry_step (dto : UpdateKycStatusDto) {o c r : ℤ} (hr : 0 ≤ r) (hc : c = min r 3 + o) :
    0 ≤ nextRetry dto r ∧
      c + (if dto.status = .observed ∧ r + 1 ≤ 3 then 1 else 0) = min (nextRetry dto r) 3 + o := by
  unfold nextRetry
  by_cases hdto : dto.status = .observed
  · rw [if_pos hdto]
    refine ⟨by omega, ?_⟩
    by_cases hle : r + 1 ≤ 3
    · rw [if_pos ⟨hdto, hle⟩]
      omega
    · rw [if_neg fun h => hle h.2]
      omega
  · rw [if_neg hdto, if_neg fun h => hdto h.1]
    exact ⟨hr, by omega⟩

theorem counted_review {k : KycApplication} (hc : Counted d) (hk : k ∈ d.kycApplications) :
    Counted (d.review dto now k) := by
  obtain ⟨hids, hfresh, hcounts⟩ := hc
  have hframe : (d.review dto now k).kycApplications = _ ∧
      (d.review dto now k).openedObserved = _ :=
    note_frame (reviewed dto now k)
  have hcount : ∀ x, (d.review dto now k).observations.count x = _ :=
    count_note (reviewed dto now k)
  refine ⟨?_, fun x hx => ?_, fun k' hk' => ?_⟩
  · rw [hframe.1, map_id_reviewed]
    exact hids
  · rw [hframe.1, map_id_reviewed] at hx
    have hne : k.id ≠ x := fun h => hx (h ▸ List.mem_map_of_mem hk)
    rw [hcount, hframe.2, if_neg fun h => hne h.2]
    exact hfresh x hx
  · rw [hframe.1] at hk'
    obtain ⟨k₀, hk₀, rfl⟩ := List.mem_map.mp hk'
    obtain ⟨hretry, hold⟩ := hcounts k₀ hk₀
    rw [hcount, hframe.2]
    by_cases hid : k₀.id = k.id
    · obtain rfl := List.inj_on_of_nodup_map hids hk₀ hk hid
      have hobserved : (reviewed dto now k₀).status = .observed ↔
          dto.status = .observed ∧ k₀.retryCount + 1 ≤ 3 := nextStatus_observed
      have hid' : (reviewed dto now k₀).id = k₀.id := rfl
      have hnext : (reviewed dto now k₀).retryCount = nextRetry dto k₀.retryCount := rfl
      simp only [decide_true, if_true, hid', hnext, hobserved, and_true]
      push_cast
      exact retry_step dto hretry hold
    · have hne : k.id ≠ k₀.id := Ne.symm hid
      simp [hid, hne, reviewed, hretry, hold]

theorem Counted.congr {d' : Desk} (hc : Counted d) (hk : d'.kycApplications = d.kycApplications)
    (ho : d'.observations = d.observations) (hn : d'.openedObserved = d.openedObserved) :
    Counted d' := by
  obtain ⟨hids, hfresh, hcounts⟩ := hc
  exact ⟨by rw [hk]; exact hids, by rw [hk, ho, hn]; exact hfresh, by rw [hk, ho, hn]; exact hcounts⟩

theorem counted_insert {k : KycApplication} (hc : Counted d)
    (hid : k.id ∉ d.kycApplications.map KycApplication.id) (hretry : k.retryCount = 0) :
    Counted ((d.insert k).note k) := by
  have hcons := counted_cons (decide (k.status = .observed)) hc hid hretry
  refine hcons.congr ?_ ?_ ?_ <;> simp only [Desk.note, Desk.insert] <;> split <;> simp_all

theorem latest_mem {k : KycApplication} (h : d.latest userId = some k) : k ∈ d.kycApplications :=
  List.mem_of_find?_eq_some h

theorem reviewApplication_counted {r : Option KycApplication} {d' : Desk} (hc : Counted d)
    (hid : id ∉ d.kycApplications.map KycApplication.id)
    (h : reviewApplication user (d.latest userId) dto id now faults d = some (r, d')) :
    Counted d' := by
  cases hk : d.latest userId with
  | some app =>
    rw [hk] at h
    simp only [reviewApplication] at h
    split at h <;> cases h
    exact counted_review hc (latest_mem hk)
  | none =>
    rw [hk] at h
    simp only [reviewApplication] at h
    split at h <;> cases h
    · exact counted_insert hc hid rfl
    · exact hc

theorem counted_perform {e : Event} (hc : Counted d)
    (hid : e.id ∉ d.kycApplications.map KycApplication.id) :
    Counted (e.perform d).2 := by
  cases e with
  | create userId dto id now faults =>
    obtain ⟨hk, ho, hn⟩ := prepare_frame userId dto now faults d
    have hprepared : Counted (prepare userId dto now faults d) := hc.congr hk ho hn
    simp only [Event.perform, createKycApplication]
    split
    · exact hprepared
    · split
      · exact hprepared
      · refine counted_cons false hprepared ?_ rfl
        rw [hk]
        exact hid
  | review userId dto id now faults =>
    simp only [Event.perform, updateUserKycStatus]
    cases d.user userId with
    | none => exact hc
    | some user =>
      simp only
      cases hr : reviewApplication user (d.latest userId) dto id now faults d with
      | none => exact hc
      | some r =>
        have hreviewed := reviewApplication_counted hc hid hr
        simp only
        split
        · exact hreviewed
        · split
          · exact hreviewed
          · exact hreviewed.congr rfl rfl rfl

/-- No application has been observed more than three times. -/
def Below (d : Desk) : Prop := ∀ id, d.observations.count id ≤ 3

theorem below_iff (hc : Counted d) :
    Below d ↔ ∀ k ∈ d.kycApplications, k.id ∈ d.openedObserved → k.retryCount ≤ 2 := by
  constructor
  · intro h k hk hopened
    have hcount := (hc.counts k hk).2
    have hle := h k.id
    rw [if_pos hopened] at hcount
    omega
  · intro h id
    by_cases hid : id ∈ d.kycApplications.map KycApplication.id
    · obtain ⟨k, hk, rfl⟩ := List.mem_map.mp hid
      have hcount := (hc.counts k hk).2
      by_cases hopened : k.id ∈ d.openedObserved
      · have hretry := h k hk hopened
        rw [if_pos hopened] at hcount
        omega
      · rw [if_neg hopened] at hcount
        omega
    · rw [(hc.fresh id hid).1]
      exact Nat.zero_le 3

theorem create_below {dto : CreateKycApplicationDto} (hb : Below d) :
    Below ((Event.create userId dto id now faults).perform d).2 := by
  have ho := (prepare_frame userId dto now faults d).2.1
  intro x
  simp only [Event.perform, createKycApplication]
  split
  · rw [ho]
    exact hb x
  · split <;> simp only [ho] <;> exact hb x

theorem review_apps (d : Desk) (dto : UpdateKycStatusDto) (now : ℕ) (k : KycApplication) :
    (d.review dto now k).kycApplications =
        updateWhere (·.id = k.id) (reviewed dto now) d.kycApplications ∧
      (d.review dto now k).openedObserved = d.openedObserved :=
  note_frame (reviewed dto now k)

theorem reviewed_below_iff {k : KycApplication} (hc : Counted d) (hb : Below d)
    (hk : k ∈ d.kycApplications) :
    Below (d.review dto now k) ↔
      (k.id ∈ d.openedObserved → nextStatus dto k.retryCount = .observed → k.retryCount ≠ 2) := by
  obtain ⟨happs, hopened⟩ := review_apps d dto now k
  have hold := (below_iff hc).mp hb
  rw [below_iff (counted_review hc hk), happs, hopened]
  constructor
  · intro h hk' hobserved
    have hmem : reviewed dto now k ∈ updateWhere (·.id = k.id)
      (reviewed dto now) d.kycApplications :=
      List.mem_map.mpr ⟨k, hk, by simp⟩
    have hretry := h _ hmem hk'
    have hdto := (nextStatus_observed.mp hobserved).1
    simp only [reviewed, nextRetry, hdto, if_true] at hretry
    omega
  · intro h k' hk' hin
    obtain ⟨k₀, hk₀, rfl⟩ := List.mem_map.mp hk'
    by_cases hid : k₀.id = k.id
    · obtain rfl := List.inj_on_of_nodup_map hc.ids hk₀ hk hid
      simp only [decide_true, if_true] at hin ⊢
      have hle := hold k₀ hk hin
      have hne := h hin
      rw [nextStatus_observed] at hne
      simp only [reviewed, nextRetry]
      split
      · rename_i hdto
        have := hne ⟨hdto, by omega⟩
        omega
      · exact hle
    · simp only [hid, decide_false, Bool.false_eq_true, if_false] at hin ⊢
      exact hold k₀ hk₀ hin

theorem insert_below {k : KycApplication} (hc : Counted d) (hb : Below d)
    (hid : k.id ∉ d.kycApplications.map KycApplication.id) (hretry : k.retryCount = 0) :
    Below ((d.insert k).note k) := by
  rw [below_iff (counted_insert hc hid hretry)]
  obtain ⟨happs, hopened⟩ := note_frame (d := d.insert k) k
  rw [happs, hopened]
  intro k' hk' hin
  rcases List.mem_cons.mp hk' with rfl | hk'
  · omega
  · have hne : k'.id ≠ k.id := fun h => hid (h ▸ List.mem_map_of_mem hk')
    refine (below_iff hc).mp hb k' hk' ?_
    simp only [Desk.insert] at hin
    split at hin
    · exact (List.mem_cons.mp hin).resolve_left hne
    · exact hin

theorem review_below_iff (hc : Counted d) (hb : Below d)
    (hid : id ∉ d.kycApplications.map KycApplication.id) :
    Below ((Event.review userId dto id now faults).perform d).2 ↔
      (faults.application = false → ∀ u, d.user userId = some u → ∀ k, d.latest userId = some k →
        k.id ∈ d.openedObserved → nextStatus dto k.retryCount = .observed → k.retryCount ≠ 2) := by
  simp only [Event.perform, updateUserKycStatus]
  cases hu : d.user userId with
  | none => exact iff_of_true hb fun _ u h => by cases h
  | some user =>
    simp only
    have hafter : ∀ {d' : Desk} {reply : Reply} {f : Option (User → User)},
        Below (match f with
          | none => ((.ok reply : Except String Reply), d')
          | some f =>
            if faults.user then (.error "user.update", d') else
              (.ok reply, d'.updateUser userId f)).2 ↔
          Below d' := by
      intro d' reply f
      cases f with
      | none => rfl
      | some f =>
        simp only
        split <;> rfl
    cases hk : d.latest userId with
    | some app =>
      by_cases hfault : faults.application = true
      · simp [reviewApplication, hfault, hb]
      · have hreview : reviewApplication user (some app) dto id now faults d =
            some (some (reviewed dto now app), d.review dto now app) := if_neg hfault
        rw [hreview]
        refine hafter.trans ((reviewed_below_iff hc hb (latest_mem hk)).trans ?_)
        simp [hfault]
    | none =>
      refine iff_of_true ?_ fun _ u _ k h => by cases h
      by_cases hrole : user.role = .tienda ∧ faults.application = false
      · have hreview : reviewApplication user none dto id now faults d =
            some (some _, (d.insert (storeApplication user (d.store user.id) dto id now)).note _) :=
          if_pos hrole
        rw [hreview]
        exact hafter.mpr (insert_below hc hb hid rfl)
      · have hreview : reviewApplication user none dto id now faults d = some (none, d) :=
          if_neg hrole
        rw [hreview]
        exact hafter.mpr hb

/-! ### Runs -/

theorem good_iff {e : Event} (hc : Counted d) (hb : Below d)
    (hid : e.id ∉ d.kycApplications.map KycApplication.id) :
    Good d e ↔ Certain d e := by
  have hsplit : Good d e ↔ ((e.perform d).1 = true → Agree (e.perform d).2 e.userId) ∧
      Below (e.perform d).2 :=
    ⟨fun h => ⟨h.agree, h.observed⟩, fun h => ⟨h.1, h.2⟩⟩
  rw [hsplit]
  cases e with
  | create userId dto id now faults =>
    rw [and_iff_left (create_below hb)]
    exact create_agree_iff
  | review userId dto id now faults =>
    have hid' : id ∉ d.kycApplications.map KycApplication.id := hid
    rw [review_below_iff hc hb hid']
    refine (and_congr_left fun _ => review_agree_iff).trans ?_
    simp only [Certain]
    constructor
    · rintro ⟨hagree, hbelow⟩ hf u hu
      refine ⟨hagree hf u hu, fun k hk hin hs => hbelow hf u hu k hk hin ?_⟩
      rwa [hk] at hs
    · intro h
      refine ⟨fun hf u hu => (h hf u hu).1, fun hf u hu k hk hin hs => (h hf u hu).2 k hk hin ?_⟩
      rwa [hk]

theorem fresh_of_step {e : Event} {d' : Desk} (h : step d e = some d') :
    e.id ∉ d.kycApplications.map KycApplication.id ∧ (e.perform d).2 = d' := by
  obtain ⟨hid, hd⟩ := Option.ite_none_left_eq_some.mp h
  refine ⟨fun hmem => hid ?_, Option.some.inj hd⟩
  obtain ⟨k, hk, hke⟩ := List.mem_map.mp hmem
  exact List.any_eq_true.mpr ⟨k, hk, by simpa using hke⟩

theorem step_kept {e : Event} {d' : Desk} (hc : Counted d) (hgood : Good d e)
    (h : step d e = some d') :
    Counted d' ∧ Below d' := by
  obtain ⟨hid, rfl⟩ := fresh_of_step h
  exact ⟨counted_perform hc hid, hgood.observed⟩

/-- In every run from a desk without applications, every call that returns leaves its user with the
status of the last application and no application is observed a fourth time, exactly when every step
meets the condition. -/
theorem kyc_agrees_iff (users : List User) (storeProfiles : List StoreProfile) (es : List Event) :
    Along step (fun d e => ∀ d', step d e = some d' → Good d e) (start users storeProfiles) es ↔
      Along step (fun d e => ∀ d', step d e = some d' → Certain d e)
      (start users storeProfiles) es := by
  have hstart : Counted (start users storeProfiles) ∧ Below (start users storeProfiles) :=
    ⟨⟨List.nodup_nil, fun _ _ => ⟨rfl, List.not_mem_nil⟩, fun _ h => (by cases h)⟩, fun _ =>
      Nat.zero_le 3⟩
  constructor
  · refine along_strengthen (I := fun d => Counted d ∧ Below d) (fun d e d' hI hgood h => ?_)
      (fun d e hI hgood d' h => ?_) hstart
    · exact step_kept hI.1 (hgood d' h) h
    · exact (good_iff hI.1 hI.2 (fresh_of_step h).1).mp (hgood d' h)
  · refine along_strengthen (I := fun d => Counted d ∧ Below d) (fun d e d' hI hcertain h => ?_)
      (fun d e hI hcertain d' h => ?_) hstart
    · exact step_kept hI.1 ((good_iff hI.1 hI.2 (fresh_of_step h).1).mpr (hcertain d' h)) h
    · exact (good_iff hI.1 hI.2 (fresh_of_step h).1).mpr (hcertain d' h)

def faultless : Faults := ⟨false, false, false, false, true⟩

def reviewing (status : KycStatus) (id : String) : Event :=
  .review "u" ⟨status, none⟩ id 7 faultless

def applying : Event :=
  .create "u" ⟨none, none, none, some "12345678", none, none, none, none, none,
    none⟩ "k" 7 faultless

/-- An approved application expires, and its user stays approved. -/
theorem expired_leaves_approved :
    let d := (run step (start [household "12345678"] []) [applying, reviewing .approved "x"]).getD (start [] [])
    (step d (reviewing .expired "y")).isSome = true ∧ ¬ Good d (reviewing .expired "y") := by
  intro d
  refine ⟨by decide +kernel, fun hgood => ?_⟩
  have hreturns : ((reviewing .expired "y").perform d).1 = true := by decide +kernel
  have huser : (((reviewing .expired "y").perform d).2.user "u").map User.kycStatus = some .approved := by
    decide +kernel
  have hlatest : (((reviewing .expired "y").perform d).2.latest "u").map KycApplication.status =
      some .expired := by decide +kernel
  obtain ⟨u, hu, hstatus⟩ := Option.map_eq_some_iff.mp huser
  have hagree := (agree_iff hu hlatest).mp (hgood.agree hreturns) .expired rfl
  rw [hstatus] at hagree
  cases hagree

end Livora.KycReviews
