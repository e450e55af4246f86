import Livora.CallTraces
import Livora.NamedPools
import Livora.PasswordServices

/-! What a request has to have shown before it sets a password, has a link stored or mails one, in
what it has called so far; the services keep to it. -/

namespace Livora.PasswordRequests

open EffectPrograms EffectPrograms.Action NamedPools CallTraces AuthBooks PasswordServices
open LoginAttempts (User Credential)

/-! ### What a request has to have shown -/

abbrev Answered := Call (Request × Op) fun i => Except Failure (Reply i.2)

def Drew (own : List Answered) (token : Token) : Prop :=
  ∃ request, said request .randomBytes (.ok token) ∈ own

def Unstored (own : List Answered) (token : Token) : Prop :=
  ∀ request email r, said request (.storeToken token email) r ∉ own

/-- The password in use was compared, and is the one that was given. -/
def Matched (own : List Answered) (request : Request) (user : User) (password : String) : Prop :=
  ∃ credentials, user.credentials = some credentials ∧
    said request (.compare password credentials.passwordHash) (.ok true) ∈ own

def Hashed (own : List Answered) (request : Request) (password passwordHash : String) : Prop :=
  said request (.hash password) (.ok passwordHash) ∈ own

/-- On what grounds a request sets the password of a user. -/
def Grounds (own : List Answered) (request : Request) (userId passwordHash : String) : Prop :=
  match request with
  | .forgot _ => False
  | .reset token password => Hashed own request password passwordHash ∧ ∃ email user,
      said request (.getToken token) (.ok (some email)) ∈ own ∧
      said request (.findByEmail email) (.ok (some user)) ∈ own ∧ user.id = userId
  | .change id currentPassword newPassword => Hashed own request newPassword passwordHash ∧
      id = userId ∧ currentPassword ≠ newPassword ∧ ∃ user,
      said request (.findById id) (.ok (some user)) ∈ own ∧ isCurrent user = true ∧
      Matched own request user currentPassword
  | .changeOwn id newPassword currentPassword => Hashed own request newPassword passwordHash ∧
      id = userId ∧ ∃ user, said request (.findById id) (.ok (some user)) ∈ own ∧
        isCurrent user = true ∧
      ∀ given ∈ currentPassword.filter (· ≠ ""), given ≠ newPassword ∧
        Matched own request user given
  | .regularize id newPassword _ => id = userId ∧
      ∃ given ∈ newPassword.filter (· ≠ ""), Hashed own request given passwordHash

def Asks (own : List Answered) (request : Request) (email : String) : Prop :=
  match request with
  | .forgot address => address = email
  | .regularize id _ true =>
    ∃ user, said request (.findById id) (.ok (some user)) ∈ own ∧ user.email = email
  | _ => False

def Allowed (svc : Services) (own : List Answered) : Request × Op → Prop
  | (request, .storeToken token email) =>
    Drew own token ∧ Unstored own token ∧ Asks own request email
  | (request, .sendPasswordRecoveryEmail email link) => ∃ token, link = resetLink svc token ∧
      said request (.storeToken token email) (.ok ()) ∈ own
  | (request, .deleteToken token) =>
    ∃ email, said request (.getToken token) (.ok (some email)) ∈ own
  | (request, .upsertPassword userId passwordHash) => Grounds own request userId passwordHash
  | (request, .updatePassword userId passwordHash) => Grounds own request userId passwordHash
  | _ => True

/-- A reset that has returned has had its link deleted. -/
def Ended (own : List Answered) : Request × Except Failure String → Prop
  | (.reset token password, .ok _) =>
    said (.reset token password) (.deleteToken token) (.ok ()) ∈ own
  | _ => True

/-! ### The services keep to it -/

section Programs

variable {svc : Services} {own : List Answered} {request : Request} {email userId : String}
    {user : User}

abbrev protocol (svc : Services) (request : Request) : Protocol (List Answered) Op fun i =>
    Except Failure (Reply i) :=
  under (remembering (Allowed svc)) request

theorem asks_append {call : Answered} (h : Asks own request email) :
    Asks (own ++ [call]) request email := by
  cases request with
  | forgot address => exact h
  | regularize id newPassword sendResetEmail =>
    cases sendResetEmail with
    | true => exact h.imp fun user hu => ⟨List.mem_append_left _ hu.1, hu.2⟩
    | false => exact h
  | _ => exact h

theorem unstored_append {i : Request × Op} {r : Except Failure (Reply i.2)} {token : Token}
    (hi : ∀ token email, i.2 ≠ .storeToken token email) (h : Unstored own token) :
    Unstored (own ++ [⟨i, r⟩]) token := by
  intro request email r' hmem
  rw [List.mem_append, List.mem_singleton] at hmem
  rcases hmem with hmem | hlast
  · exact h request email r' hmem
  · exact hi token email (congrArg (fun call : Answered => call.1.2) hlast).symm

theorem follows_forgotPassword (hasks : Asks own request email)
    (hunstored : ∀ token, Unstored own token) :
    Follows (protocol svc request) own (forgotPassword svc email) := by
  refine follows_call trivial fun found => ?_
  cases found with
  | none => exact follows_throw _
  | some user =>
    refine follows_call trivial fun token => follows_call ⟨?_, ?_, ?_⟩ fun _ =>
      follows_call ⟨token, rfl, ?_⟩ fun _ => follows_pure _
    · exact ⟨request, List.mem_append_right _ List.mem_cons_self⟩
    · exact unstored_append (fun _ _ h => by cases h)
        (unstored_append (fun _ _ h => by cases h) (hunstored token))
    · exact asks_append (asks_append hasks)
    · exact List.mem_append_right _ List.mem_cons_self

theorem unstored_nil (token : Token) : Unstored [] token := fun _ _ _ h => by cases h

theorem obeys_resetPassword {token : Token} {password : String} :
    Obeys (protocol svc (.reset token password))
    (fun own x => Ended own (.reset token password, x)) []
      (resetPassword token password) := by
  refine obeys_call.mpr ⟨trivial, fun found => ?_, fun _ => trivial⟩
  cases hfound : found.filter (· ≠ "") with
  | none => exact trivial
  | some email =>
    cases (Option.filter_eq_some_iff.mp hfound).1
    refine obeys_call.mpr ⟨trivial, fun owner => ?_, fun _ => trivial⟩
    cases owner with
    | none => exact trivial
    | some user =>
      refine obeys_call.mpr ⟨trivial, fun passwordHash => ?_, fun _ => trivial⟩
      refine obeys_call.mpr ⟨⟨?_, email, user, ?_, ?_, rfl⟩, fun _ => ?_, fun _ => trivial⟩
      · simp [Hashed, said, under, remembering]
      · simp [said, under, remembering]
      · simp [said, under, remembering]
      · refine obeys_call.mpr ⟨trivial, fun _ => ?_, fun _ => trivial⟩
        refine obeys_call.mpr ⟨⟨email, ?_⟩, fun _ => ?_, fun _ => trivial⟩
        · simp [said, under, remembering]
        · exact List.mem_append_right _ List.mem_cons_self

theorem obeys_comparePassword {password passwordHash : String} :
    Obeys (protocol svc request) (fun t x => ∀ isMatch, x = .ok isMatch → isMatch = true →
        own ⊆ t ∧ said request (.compare password passwordHash) (.ok true) ∈ t) own
      (comparePassword password passwordHash) := by
  unfold comparePassword
  split
  · intro isMatch h htrue
    cases h
    cases htrue
  · refine obeys_perform.mpr ⟨trivial, fun answer isMatch h htrue =>
      ?_, fun e isMatch h => by cases h⟩
    cases h
    cases htrue
    exact ⟨List.subset_append_left _ _, List.mem_append_right _ List.mem_cons_self⟩

theorem follows_changeMatched {currentPassword newPassword : String}
    (hdiffers : currentPassword ≠ newPassword)
    (hfound : said (.change userId currentPassword newPassword) (.findById userId)
      (.ok (some user)) ∈ own)
    (hcurrent : isCurrent user = true)
    (hmatched : Matched own (.change userId currentPassword newPassword) user currentPassword) :
    Follows (protocol svc (.change userId currentPassword newPassword)) own
      (changeMatched userId newPassword) := by
  refine follows_call trivial fun passwordHash => follows_call ?_ fun _ =>
    follows_call trivial fun _ =>
    follows_pure _
  refine ⟨List.mem_append_right _ List.mem_cons_self, rfl, hdiffers, user,
    List.mem_append_left _ hfound, hcurrent, ?_⟩
  exact hmatched.imp fun credentials h => ⟨h.1, List.mem_append_left _ h.2⟩

theorem follows_changePassword {currentPassword newPassword : String} :
    Follows (protocol svc (.change userId currentPassword newPassword)) []
      (changePassword userId currentPassword newPassword) := by
  unfold changePassword
  split
  · exact follows_throw _
  rename_i hdiffers
  refine follows_call trivial fun found => ?_
  cases found with
  | none => exact follows_throw _
  | some user =>
    change Follows _ _ (changeFound userId currentPassword newPassword user)
    unfold changeFound
    split
    · rename_i hcurrent
      cases hcredentials : user.credentials with
      | none => exact follows_throw _
      | some credentials =>
        refine follows_after obeys_comparePassword fun isMatch t hmatch => ?_
        split
        · rename_i hx
          obtain ⟨hown, hcompared⟩ := hmatch hx
          exact follows_changeMatched hdiffers (hown (by simp [said, under, remembering])) hcurrent
            ⟨credentials, hcredentials, hcompared⟩
        · exact follows_throw _
    · exact follows_throw _

theorem follows_setOwn {newPassword : String} {currentPassword : Option String}
    (hfound : said (.changeOwn userId newPassword currentPassword) (.findById userId)
      (.ok (some user)) ∈ own)
    (hcurrent : isCurrent user = true) (hgiven : ∀ given ∈ currentPassword.filter (· ≠ ""),
      given ≠ newPassword ∧
        Matched own (.changeOwn userId newPassword currentPassword) user given) :
    Follows (protocol svc (.changeOwn userId newPassword currentPassword)) own
      (setOwn userId newPassword) := by
  refine follows_call trivial fun passwordHash => follows_call ?_ fun _ => follows_pure _
  refine ⟨List.mem_append_right _ List.mem_cons_self, rfl, user, List.mem_append_left _ hfound,
    hcurrent, fun given h => ?_⟩
  obtain ⟨hdiffers, credentials, hcredentials, hcompared⟩ := hgiven given h
  exact ⟨hdiffers, credentials, hcredentials, List.mem_append_left _ hcompared⟩

theorem follows_changeOwnPassword {newPassword : String} {currentPassword : Option String} :
    Follows (protocol svc (.changeOwn userId newPassword currentPassword)) []
      (changeOwnPassword userId newPassword currentPassword) := by
  refine follows_call trivial fun found => ?_
  cases found with
  | none => exact follows_throw _
  | some user =>
    change Follows _ _ (if isCurrent user = true then
      setOwnFound userId newPassword user (currentPassword.filter (· ≠ "")) else _)
    split
    · rename_i hcurrent
      cases hgiven : currentPassword.filter (· ≠ "") with
      | none =>
        refine follows_setOwn (by simp [said, under, remembering]) hcurrent fun given h => ?_
        rw [hgiven] at h
        cases h
      | some given =>
        change Follows _ _ (if given = newPassword then _ else _)
        split
        · exact follows_throw _
        rename_i hdiffers
        cases hcredentials : user.credentials with
        | none => exact follows_throw _
        | some credentials =>
          refine follows_call trivial fun isMatch => ?_
          cases isMatch with
          | false => exact follows_throw _
          | true =>
            refine follows_setOwn (by simp [said, under, remembering]) hcurrent fun other h => ?_
            rw [hgiven] at h
            cases h
            exact ⟨hdiffers, credentials, hcredentials, List.mem_append_right _ List.mem_cons_self⟩
    · exact follows_throw _

theorem obeys_setByAdmin {given : Option String} {newPassword : Option String}
    {sendResetEmail : Bool}
    (hgiven : newPassword.filter (· ≠ "") = given) (hunstored : ∀ token, Unstored own token) :
    Obeys (protocol svc (.regularize userId newPassword sendResetEmail))
      (fun t x => ∀ y, x = .ok y → own ⊆ t ∧ ∀ token, Unstored t token) own
        (setByAdmin userId given) := by
  cases given with
  | none => exact fun _ _ => ⟨List.Subset.refl _, hunstored⟩
  | some password =>
    refine obeys_call.mpr ⟨trivial, fun passwordHash => ?_, fun _ _ h => by cases h⟩
    refine obeys_perform.mpr ⟨⟨rfl, password, hgiven, ?_⟩, fun _ _ _ => ⟨?_, fun token => ?_⟩,
      fun _ _ h => by cases h⟩
    · exact List.mem_append_right _ List.mem_cons_self
    · exact List.subset_append_of_subset_left _ (List.subset_append_left _ _)
    · exact unstored_append (fun _ _ h => by cases h)
        (unstored_append (fun _ _ h => by cases h) (hunstored token))

theorem follows_regularizeUserPassword {newPassword : Option String} {sendResetEmail : Bool} :
    Follows (protocol svc (.regularize userId newPassword sendResetEmail)) []
      (regularizeUserPassword svc userId newPassword sendResetEmail) := by
  refine follows_call trivial fun found => ?_
  cases found with
  | none => exact follows_throw _
  | some user =>
    change Follows _ _
      (regularizeFound svc userId (newPassword.filter (· ≠ "")) sendResetEmail user)
    unfold regularizeFound
    split
    · exact follows_throw _
    refine follows_after (obeys_setByAdmin rfl fun token =>
      unstored_append (fun _ _ h => by cases h) (unstored_nil token)) fun _ t ht => ?_
    cases sendResetEmail with
    | false => exact follows_pure _
    | true =>
      refine follows_bind ?_ fun _ _ => follows_pure _
      unfold mailByAdmin
      split
      · refine follows_bind (follows_forgotPassword ⟨user, ?_, rfl⟩ ht.2) fun _ _ => follows_pure _
        exact ht.1 (by simp [said, under, remembering])
      · exact follows_throw _

theorem keeps_program (request : Request) :
    Keeps (remembering (Allowed svc)) Ended [] (inName request (handle svc request).run) := by
  refine (keeps_inName (ρ := fun i => Except Failure (Reply i))).mpr ?_
  cases request with
  | reset token password => exact obeys_resetPassword
  | forgot email =>
    exact Keeps.mono (fun _ _ _ => trivial) (follows_forgotPassword rfl unstored_nil)
  | change userId currentPassword newPassword =>
    exact Keeps.mono (fun _ _ _ => trivial) follows_changePassword
  | changeOwn id newPassword currentPassword =>
    exact Keeps.mono (fun _ _ _ => trivial) follows_changeOwnPassword
  | regularize userId newPassword sendResetEmail =>
    exact Keeps.mono (fun _ _ _ => trivial) follows_regularizeUserPassword

end Programs

end Livora.PasswordRequests
