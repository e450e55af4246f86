import Livora.BackOffice
import Mathlib.Data.Rat.Defs

/-! `UsersService.cancelAccountARCO`, and what it leaves of a person: two accounts that differ in
personal data only are cancelled, and what still tells their rows apart is written out column by
column. -/

namespace Livora.ArcoCancellations

open BackOffice (Role)

inductive UserStatus where
  | pendingEmailVerification
  | active
  | lockedPinAttempts
  | suspendedDebt
  | suspendedFraud
  | deletionRequested
  | deletedArco
deriving DecidableEq

inductive KycStatus where
  | unverified
  | pending
  | observed
  | inReview
  | approved
  | rejected
  | expired
deriving DecidableEq

/-- A row of `users`; times are milliseconds. -/
structure User where
  id : String
  email : String
  role : Role
  userStatus : UserStatus
  kycStatus : KycStatus
  dniDocumentNumber : Option String
  dniPhotoUrl : Option String
  selfiePhotoUrl : Option String
  kycRejectionReason : Option String
  kycVerifiedAt : Option ℕ
  isWalletSponsored : Bool
  profilePhotoUrl : Option String
  walletAddress : Option String
  encryptedPrivateKey : Option String
  encryptionIv : Option String
  encryptionTag : Option String
  receptionPin : Option String
  fcmToken : Option String
  isActive : Bool
  deletedAt : Option ℕ
  createdAt : ℕ
  updatedAt : ℕ
  name : Option String
  phone : Option String
  address : Option String
  latitude : Option ℚ
  longitude : Option ℚ
  marketingAccepted : Bool
  reputationScore : ℚ
  totalRatings : ℤ
  requiresQaReview : Bool
deriving DecidableEq

structure StoreProfile where
  id : String
  userId : String
  businessName : String
  ruc : String
  address : String
  bankAccount : String
  logoUrl : Option String
  createdAt : ℕ
  updatedAt : ℕ
deriving DecidableEq

structure KycApplication where
  id : String
  status : KycStatus
  documentType : Option String
  documentNumber : Option String
  documentUrl : Option String
  documentUrlBack : Option String
  selfieUrl : Option String
  taxIdRuc : Option String
  businessName : Option String
  transportType : Option String
  vehiclePlate : Option String
  bankCci : Option String
  associationName : Option String
  observationNotes : Option String
  retryCount : ℤ
  userId : String
  createdAt : ℕ
  updatedAt : ℕ
deriving DecidableEq

structure Complaint where
  id : String
  userId : Option String
deriving DecidableEq

/-- The tables of a cancellation; of a vault, a notification and a credential only the owner
matters. -/
structure Db where
  users : List User
  walletVaults : List String
  storeProfiles : List StoreProfile
  kycApplications : List KycApplication
  complaints : List Complaint
  notifications : List String
  betaSignups : List String
  userCredentials : List String

/-! ### The operation -/

def anonymousEmail (id : String) (now : ℕ) : String :=
  "deleted_" ++ id ++ "_" ++ toString now ++ "@anon.livora.pe"

def User.anonymized (now : ℕ) (u : User) : User :=
  { u with
    email := anonymousEmail u.id now
    encryptedPrivateKey := none
    fcmToken := none
    receptionPin := none
    isActive := false
    deletedAt := some now
    name := some "ANONIMO"
    phone := none
    address := none
    latitude := none
    longitude := none
    marketingAccepted := false
    updatedAt := now }

def StoreProfile.anonymized (now : ℕ) (p : StoreProfile) : StoreProfile :=
  { p with
    businessName := "Tienda Anonimizada (ARCO)"
    ruc := "00000000000"
    address := "Dirección Anonimizada"
    bankAccount := "ANONIMIZADO"
    logoUrl := none
    updatedAt := now }

def KycApplication.anonymized (now : ℕ) (k : KycApplication) : KycApplication :=
  { k with documentUrl := none, status := .rejected, updatedAt := now }

/-- `update … where`, row by row. -/
def updateWhere {α : Type} (p : α → Bool) (f : α → α) (rows : List α) : List α :=
  rows.map fun row => if p row then f row else row

def Db.user (d : Db) (id : String) : Option User := d.users.find? fun u => u.id = id

/-- The transaction; the e-mail is unique. -/
def anonymize (id originalEmail : String) (now : ℕ) (d : Db) : Except String Db :=
  if d.users.any fun u => u.id ≠ id ∧ u.email = anonymousEmail id now then
    .error "Unique constraint failed on the fields: (`email`)"
  else .ok
    { users := updateWhere (·.id = id) (User.anonymized now) d.users
      walletVaults := d.walletVaults.filter (· ≠ id)
      storeProfiles := updateWhere (·.userId = id) (StoreProfile.anonymized now) d.storeProfiles
      kycApplications :=
        updateWhere (·.userId = id) (KycApplication.anonymized now) d.kycApplications
      complaints :=
        updateWhere (·.userId = some id) (fun c => { c with userId := none }) d.complaints
      notifications := d.notifications.filter (· ≠ id)
      betaSignups := d.betaSignups.filter (· ≠ originalEmail)
      userCredentials := d.userCredentials.filter (· ≠ id) }

def cancelAccountARCO (id : String) (now : ℕ) (d : Db) : Except String Db :=
  match d.user id with
  | none => .error "Usuario no encontrado o ya cancelado"
  | some user =>
    if user.deletedAt ≠ none ∨
      user.isActive = false then .error "Usuario no encontrado o ya cancelado"
    else anonymize id user.email now d

/-! ### Rows up to identifiers and timestamps -/

/-- The columns of a user that are neither identifier nor timestamp; the e-mail may hold both. -/
def User.masked (u : User) : User :=
  { u with id := "", email := "", createdAt := 0, updatedAt := 0, deletedAt := u.deletedAt.map fun _ => 0,
           kycVerifiedAt := none }

def StoreProfile.masked (p : StoreProfile) : StoreProfile :=
  { p with id := "", userId := "", createdAt := 0, updatedAt := 0 }

def KycApplication.masked (k : KycApplication) : KycApplication :=
  { k with id := "", userId := "", createdAt := 0, updatedAt := 0 }

/-- The same user rows, with e-mails that tell the row and a time only. -/
def AlikeUsers (u u' : User) : Prop :=
  u.masked = u'.masked ∧ ∃ now now', u.email = anonymousEmail u.id now ∧
    u'.email = anonymousEmail u'.id now'

def Db.stores (d : Db) (id : String) : List StoreProfile := d.storeProfiles.filter (·.userId = id)

def Db.applications (d : Db) (id : String) : List KycApplication :=
  d.kycApplications.filter (·.userId = id)

/-- The rows of two users are equal up to identifiers, timestamps and their order. -/
structure Alike (d : Db) (id : String) (d' : Db) (id' : String) : Prop where
  users : ∀ u u', d.user id = some u → d'.user id' = some u' → AlikeUsers u u'
  stores : ((d.stores id).map StoreProfile.masked).Perm ((d'.stores id').map StoreProfile.masked)
  applications :
    ((d.applications id).map KycApplication.masked).Perm
      ((d'.applications id').map KycApplication.masked)

/-- The users are the same apart from personal data, what the cancellation overwrites, identifiers
and timestamps. -/
structure SameApart (u u' : User) : Prop where
  role : u.role = u'.role
  userStatus : u.userStatus = u'.userStatus
  isWalletSponsored : u.isWalletSponsored = u'.isWalletSponsored
  encryptionIv : u.encryptionIv = u'.encryptionIv
  encryptionTag : u.encryptionTag = u'.encryptionTag
  reputationScore : u.reputationScore = u'.reputationScore
  totalRatings : u.totalRatings = u'.totalRatings
  requiresQaReview : u.requiresQaReview = u'.requiresQaReview

/-! ### What is left -/

structure UserTraces where
  kycStatus : KycStatus
  dniDocumentNumber : Option String
  dniPhotoUrl : Option String
  selfiePhotoUrl : Option String
  kycRejectionReason : Option String
  profilePhotoUrl : Option String
  walletAddress : Option String
deriving DecidableEq

def User.traces (u : User) : UserTraces :=
  ⟨u.kycStatus, u.dniDocumentNumber, u.dniPhotoUrl, u.selfiePhotoUrl, u.kycRejectionReason,
    u.profilePhotoUrl, u.walletAddress⟩

structure KycTraces where
  documentType : Option String
  documentNumber : Option String
  documentUrlBack : Option String
  selfieUrl : Option String
  taxIdRuc : Option String
  businessName : Option String
  transportType : Option String
  vehiclePlate : Option String
  bankCci : Option String
  associationName : Option String
  observationNotes : Option String
  retryCount : ℤ
deriving DecidableEq

def KycApplication.traces (k : KycApplication) : KycTraces :=
  ⟨k.documentType, k.documentNumber, k.documentUrlBack, k.selfieUrl, k.taxIdRuc, k.businessName,
    k.transportType, k.vehiclePlate, k.bankCci, k.associationName, k.observationNotes, k.retryCount⟩

structure SameTraces (d : Db) (id : String) (d' : Db) (id' : String) : Prop where
  users : ∀ u u', d.user id = some u → d'.user id' = some u' → u.traces = u'.traces
  stores : (d.stores id).length = (d'.stores id').length
  applications :
    ((d.applications id).map KycApplication.traces).Perm
      ((d'.applications id').map KycApplication.traces)

def KycTraces.row (t : KycTraces) : KycApplication :=
  ⟨"", .rejected, t.documentType, t.documentNumber, none, t.documentUrlBack, t.selfieUrl,
    t.taxIdRuc, t.businessName, t.transportType, t.vehiclePlate, t.bankCci, t.associationName,
      t.observationNotes,
    t.retryCount, "", 0, 0⟩

theorem row_injective : Function.Injective KycTraces.row := by
  rintro ⟨⟩ ⟨⟩ h
  simp only [KycTraces.row, KycApplication.mk.injEq] at h
  simp_all

theorem masked_anonymized_application (now : ℕ) (k : KycApplication) :
    (k.anonymized now).masked = k.traces.row := rfl

def anonymousStore : StoreProfile :=
  ⟨"", "", "Tienda Anonimizada (ARCO)", "00000000000", "Dirección Anonimizada", "ANONIMIZADO",
    none, 0, 0⟩

theorem masked_anonymized_store (now : ℕ) (p : StoreProfile) :
    (p.anonymized now).masked = anonymousStore :=
  rfl

theorem alikeUsers_iff {u u' : User} {now now' : ℕ} (h : SameApart u u') :
    AlikeUsers (u.anonymized now) (u'.anonymized now') ↔ u.traces = u'.traces := by
  obtain ⟨hrole, hstatus, hsponsored, hiv, htag, hscore, hratings, hqa⟩ := h
  have hmail : ∃ t t', (u.anonymized now).email = anonymousEmail (u.anonymized now).id t ∧
      (u'.anonymized now').email = anonymousEmail (u'.anonymized now').id t' :=
        ⟨now, now', rfl, rfl⟩
  rw [AlikeUsers, and_iff_left hmail]
  simp only [User.masked, User.anonymized, User.traces, User.mk.injEq, UserTraces.mk.injEq, hrole, hstatus,
    hsponsored, hiv, htag, hscore, hratings, hqa, Option.map_some]
  tauto

/-! ### After a cancellation -/

section Update

variable {α : Type} {p q : α → Bool} {f : α → α}

theorem find?_updateWhere (hq : ∀ row, q (f row) = q row) (rows : List α) :
    (updateWhere p f rows).find? q = (rows.find? q).map fun row =>
      if p row then f row else row := by
  have hkeep : q ∘ (fun row => if p row then f row else row) = q := by
    funext row
    by_cases h : p row = true
    · simp [h, hq]
    · simp [h]
  rw [updateWhere, List.find?_map, hkeep]

theorem filter_updateWhere (hp : ∀ row, p (f row) = p row) (rows : List α) :
    (updateWhere p f rows).filter p = (rows.filter p).map f := by
  induction rows with
  | nil => rfl
  | cons row rows ih =>
    rw [updateWhere] at ih ⊢
    by_cases h : p row = true
    · simp [h, hp, ih]
    · simp [h, ih]

end Update

variable {d d' e e' : Db} {id id' : String} {now now' : ℕ} {u u' : User}

theorem rows_of_cancelled (h : cancelAccountARCO id now d = .ok e) :
    ∃ u, d.user id = some u ∧ e.user id = some (u.anonymized now) ∧
      e.stores id = (d.stores id).map (StoreProfile.anonymized now) ∧
      e.applications id = (d.applications id).map (KycApplication.anonymized now) := by
  unfold cancelAccountARCO at h
  cases hu : d.user id with
  | none => simp [hu] at h
  | some u =>
    simp only [hu] at h
    split at h
    · cases h
    · unfold anonymize at h
      split at h <;> cases h
      have hstores := filter_updateWhere (p := fun s : StoreProfile => decide (s.userId = id))
        (f := StoreProfile.anonymized now) (fun _ => rfl) d.storeProfiles
      have happlications :=
        filter_updateWhere (p := fun k : KycApplication => decide (k.userId = id))
        (f := KycApplication.anonymized now) (fun _ => rfl) d.kycApplications
      refine ⟨u, rfl, ?_, hstores, happlications⟩
      have hid : u.id = id := by simpa using List.find?_some hu
      have hfound : (d.users.find? fun u => decide (u.id = id)) = some u := hu
      have hfirst := find?_updateWhere (p := fun u : User => decide (u.id = id))
        (q := fun u => decide (u.id = id)) (f := User.anonymized now) (fun _ => rfl) d.users
      rw [Db.user, hfirst, hfound, Option.map_some, decide_eq_true hid, if_pos rfl]

theorem perm_applications_iff {rows rows' : List KycApplication} :
    ((rows.map (KycApplication.anonymized now)).map KycApplication.masked).Perm
        ((rows'.map (KycApplication.anonymized now')).map KycApplication.masked) ↔
      (rows.map KycApplication.traces).Perm (rows'.map KycApplication.traces) := by
  have hrow : ∀ (t : ℕ) (rows : List KycApplication),
      (rows.map (KycApplication.anonymized t)).map KycApplication.masked =
        (rows.map KycApplication.traces).map KycTraces.row := fun t rows => by
    have hcomp : KycApplication.masked ∘ KycApplication.anonymized t =
        KycTraces.row ∘ KycApplication.traces :=
      funext fun k => masked_anonymized_application t k
    rw [List.map_map, List.map_map, hcomp]
  rw [hrow, hrow, List.map_perm_map_iff row_injective]

theorem perm_stores_iff {rows rows' : List StoreProfile} :
    ((rows.map (StoreProfile.anonymized now)).map StoreProfile.masked).Perm
        ((rows'.map (StoreProfile.anonymized now')).map StoreProfile.masked) ↔
      rows.length = rows'.length := by
  have hrow : ∀ (t : ℕ) (rows : List StoreProfile),
      (rows.map (StoreProfile.anonymized t)).map StoreProfile.masked =
        List.replicate rows.length anonymousStore := fun t rows => by
    have hconst : StoreProfile.masked ∘ StoreProfile.anonymized t = fun _ => anonymousStore :=
      funext fun p => masked_anonymized_store t p
    rw [List.map_map, hconst, List.map_const']
  rw [hrow, hrow]
  constructor
  · intro h
    simpa using h.length_eq
  · intro h
    rw [h]

/-- The rows of two users that differ in personal data only are alike after their cancellations
exactly when the users leave the same traces. -/
theorem cancelled_alike_iff (h : cancelAccountARCO id now d = .ok e)
    (h' : cancelAccountARCO id' now' d' = .ok e')
    (hsame : ∀ u u', d.user id = some u → d'.user id' = some u' → SameApart u u') :
    Alike e id e' id' ↔ SameTraces d id d' id' := by
  obtain ⟨u, hu, hafter, hstores, happlications⟩ := rows_of_cancelled h
  obtain ⟨u', hu', hafter', hstores', happlications'⟩ := rows_of_cancelled h'
  have husers : AlikeUsers (u.anonymized now) (u'.anonymized now') ↔ u.traces = u'.traces :=
    alikeUsers_iff (hsame u u' hu hu')
  constructor
  · rintro ⟨ha, hs, hk⟩
    rw [hstores, hstores', perm_stores_iff] at hs
    rw [happlications, happlications', perm_applications_iff] at hk
    refine ⟨fun v v' hv hv' => ?_, hs, hk⟩
    obtain rfl : u = v := Option.some.inj (hu.symm.trans hv)
    obtain rfl : u' = v' := Option.some.inj (hu'.symm.trans hv')
    exact husers.mp (ha _ _ hafter hafter')
  · rintro ⟨ha, hs, hk⟩
    refine ⟨fun v v' hv hv' => ?_, ?_, ?_⟩
    · obtain rfl : u.anonymized now = v := Option.some.inj (hafter.symm.trans hv)
      obtain rfl : u'.anonymized now' = v' := Option.some.inj (hafter'.symm.trans hv')
      exact husers.mpr (ha u u' hu hu')
    · rw [hstores, hstores', perm_stores_iff]
      exact hs
    · rw [happlications, happlications', perm_applications_iff]
      exact hk

def household (dni : String) : User :=
  { id := "u", email := "a@b.c", role := .hogar, userStatus := .active, kycStatus := .approved,
    dniDocumentNumber := some dni, dniPhotoUrl := none, selfiePhotoUrl :=
      none, kycRejectionReason := none,
    kycVerifiedAt := none, isWalletSponsored := false, profilePhotoUrl :=
      none, walletAddress := none,
    encryptedPrivateKey := none, encryptionIv := none, encryptionTag := none, receptionPin := none,
    fcmToken := none, isActive := true, deletedAt := none, createdAt := 0, updatedAt := 0,
    name := some "Ana", phone := none, address := none, latitude := none, longitude := none,
    marketingAccepted := false, reputationScore := 5, totalRatings := 0, requiresQaReview := false }

def alone (dni : String) : Db := ⟨[household dni], [], [], [], [], [], [], []⟩

theorem household_cancelled (dni : String) : ∃ e, cancelAccountARCO "u" 7 (alone dni) = .ok e := by
  simp [cancelAccountARCO, anonymize, Db.user, alone, household]

theorem household_sameApart (dni dni' : String) :
    ∀ u u', (alone dni).user "u" = some u → (alone dni').user "u" = some u' → SameApart u u' := by
  intro u u' hu hu'
  obtain rfl : household dni = u := Option.some.inj hu
  obtain rfl : household dni' = u' := Option.some.inj hu'
  constructor <;> rfl

theorem cancelled_alike_household : ∃ e, cancelAccountARCO "u" 7 (alone "12345678") = .ok e ∧
    (Alike e "u" e "u" ↔ SameTraces (alone "12345678") "u" (alone "12345678") "u") := by
  obtain ⟨e, h⟩ := household_cancelled "12345678"
  exact ⟨e, h, cancelled_alike_iff h h (household_sameApart _ _)⟩

/-- Two households that differ in their document number are told apart after their cancellations. -/
theorem documentNumber_survives : ∃ e e', cancelAccountARCO "u" 7 (alone "12345678") = .ok e ∧
    cancelAccountARCO "u" 7 (alone "87654321") = .ok e' ∧ ¬ Alike e "u" e' "u" := by
  obtain ⟨e, h⟩ := household_cancelled "12345678"
  obtain ⟨e', h'⟩ := household_cancelled "87654321"
  refine ⟨e, e', h, h', fun halike => ?_⟩
  obtain ⟨u, hu, hafter, -⟩ := rows_of_cancelled h
  obtain ⟨u', hu', hafter', -⟩ := rows_of_cancelled h'
  obtain rfl : household "12345678" = u := Option.some.inj hu
  obtain rfl : household "87654321" = u' := Option.some.inj hu'
  have hmasked := (halike.users _ _ hafter hafter').1
  exact absurd (congrArg User.dniDocumentNumber hmasked) (by decide)

end Livora.ArcoCancellations
