import Livora.DoubleRounding
import Livora.RegistryEffects

/-! The redemption worker against the contract. The worker signs a message built
from the job and then submits a call built from the texts of the same values; the
contract rebuilds the message from the call. The amount goes through binary64
arithmetic on both ways. The key pair and the address parser of the Stellar SDK
are parameters. -/

namespace Livora.DelegatedRedemption

open CheckedWords StellarXdr TrappingState RegistryStorage RegistryContract RegistryBank
open RegistryCalls RegistryEffects DoubleRounding

structure Sdk where
  Keypair : Type
  rawPublicKey : Keypair → BytesN 32
  publicKey : Keypair → String
  sign : Keypair → Bytes → BytesN 64
  addressFromString : String → Option Address

/-- Signatures verify under the signer's key, and its public text names its account. -/
structure Sdk.Lawful (sdk : Sdk) (host : Host) : Prop where
  verify_sign : ∀ k m, host.ed25519Verify (sdk.rawPublicKey k) m (sdk.sign k m) = true
  publicKey_address : ∀ k,
    sdk.addressFromString (sdk.publicKey k) = some (.account (sdk.rawPublicKey k))

/-- The amount of a job, a number or the text the queue turned a decimal into. -/
inductive TokenAmount where
  | number (x : Double)
  | text (d : Decimal)

namespace TokenAmount

def toNumber : TokenAmount → Option Double
  | .number x => some x
  | .text d => d.parse

def toText : TokenAmount → Decimal
  | .number x => x.toDecimal
  | .text d => d

/-- The amount stands for the exact value `q`. -/
def Denotes (t : TokenAmount) (q : ℚ) : Prop :=
  match t with
  | .number x => x.val = fl q
  | .text d => d.value = q

theorem parse_toText (t : TokenAmount) : t.toText.parse = t.toNumber := by
  cases t with
  | number x => exact x.parse_toDecimal
  | text d => rfl

theorem toNumber_val {t : TokenAmount} {q : ℚ} {x : Double} (ht : t.Denotes q)
    (hx : t.toNumber = some x) : x.val = fl q := by
  cases t with
  | number y =>
    obtain rfl := Option.some.inj hx
    exact ht
  | text d =>
    obtain rfl : d.value = q := ht
    exact Double.ofRat?_eq_some.mp hx

theorem exists_toNumber {t : TokenAmount} {q : ℚ} (ht : t.Denotes q) (hq : |fl q| < 2 ^ 1024) :
    ∃ x, t.toNumber = some x ∧ x.val = fl q := by
  cases t with
  | number y => exact ⟨y, rfl, ht⟩
  | text d =>
    obtain rfl : d.value = q := ht
    exact Double.exists_ofRat? hq

end TokenAmount

def tenMillion : Double where
  val := 10000000
  representable := by exact_mod_cast representable_intCast (n := 10000000) (by norm_num)
  finite :=
    lt_of_lt_of_le (b := 2 ^ 24) (by norm_num) (pow_le_pow_right₀ (by norm_num) (by norm_num))

/-- `BigInt(Math.round(x * 10000000))` as an `i128`; `Math.round` rounds halves up. -/
def stroops (x : Double) : Option I128 := do
  let product ← x.mul tenMillion
  SWord.ofInt? 128 (round product.val)

/-- `BigInt(x)`, which throws on a fraction. -/
def bigInt (x : Double) : Option ℤ := if x.val.den = 1 then some x.val.num else none

def executeDelegatedTransfer (sdk : Sdk) (signer : sdk.Keypair) (source target : String)
    (amount : Decimal) (nonce : Double) (pubKeyRaw : BytesN 32) (signature : BytesN 64) :
    Option Delegated := do
  let amountBig ← stroops (← amount.parse)
  let caller ← sdk.addressFromString (sdk.publicKey signer)
  let fromAddr ← sdk.addressFromString source
  let toAddr ← sdk.addressFromString target
  let nonceBig ← SWord.ofInt? 128 (← bigInt nonce)
  some ⟨caller, fromAddr, toAddr, amountBig, nonceBig, pubKeyRaw, signature⟩

structure RedemptionJob where
  fromUserId : String
  fromWallet : String
  toWallet : String
  tokenAmount : TokenAmount

structure Worker (sdk : Sdk) where
  contractId : String
  encryptedPrivateKey : String → Option String
  decrypt : String → Option sdk.Keypair

inductive Failure where
  | noPrivateKey (fromUserId : String)
  | undecryptable (fromUserId : String)
  | thrown
deriving DecidableEq

def Failure.message : Failure → String
  | .noPrivateKey id => "El usuario " ++ id ++ " no posee una clave privada registrada"
  | .undecryptable id => "No se pudo descifrar la clave privada del usuario " ++ id
  | .thrown => ""

def orFail {α : Type} (e : Failure) (o : Option α) : Except Failure α :=
  o.elim (.error e) .ok

/-- The call submitted for a redemption, given the nonce read from the contract. -/
def processRedemptionTransfer {sdk : Sdk} (worker : Worker sdk) (signer : sdk.Keypair)
    (nonceVal : I128) (job : RedemptionJob) : Except Failure Delegated := do
  let vault ← orFail (.noPrivateKey job.fromUserId) (worker.encryptedPrivateKey job.fromUserId)
  let userKeypair ← orFail (.undecryptable job.fromUserId) (worker.decrypt vault)
  let amountBig ← orFail .thrown (job.tokenAmount.toNumber.bind stroops)
  let fromAddr ← orFail .thrown (sdk.addressFromString job.fromWallet)
  let toAddr ← orFail .thrown (sdk.addressFromString job.toWallet)
  let contract ← orFail .thrown (sdk.addressFromString worker.contractId)
  let payloadXdr := scvVec
    [.address fromAddr, .address toAddr, .i128 amountBig, .i128 nonceVal, .address contract]
  let signature := sdk.sign userKeypair payloadXdr
  let publicKeyRaw := sdk.rawPublicKey userKeypair
  let nonce ← orFail .thrown (Double.ofRat? nonceVal.val)
  orFail .thrown (executeDelegatedTransfer sdk signer job.fromWallet job.toWallet
    job.tokenAmount.toText nonce publicKeyRaw signature)

@[simp] theorem orFail_eq_ok {α : Type} {e : Failure} {o : Option α} {a : α} :
    orFail e o = .ok a ↔ o = some a := by
  cases o <;> simp [orFail]

theorem bind_eq_ok {α β : Type} {m : Except Failure α} {f : α → Except Failure β} {b : β} :
    m >>= f = .ok b ↔ ∃ a, m = .ok a ∧ f a = .ok b := by
  cases m <;> simp [bind, Except.bind]

/-- What a submitted call is made of. -/
structure Submitted (sdk : Sdk) (worker : Worker sdk) (signer : sdk.Keypair) (nonceVal : I128)
    (job : RedemptionJob) (a : Delegated) : Prop where
  parties : sdk.addressFromString (sdk.publicKey signer) = some a.caller ∧
    sdk.addressFromString job.fromWallet = some a.fromAddr ∧
    sdk.addressFromString job.toWallet = some a.toAddr
  amount : job.tokenAmount.toNumber.bind stroops = some a.amount
  nonce : (Double.ofRat? nonceVal.val).bind bigInt = some a.nonce.val
  signed : ∃ vault user contract, worker.encryptedPrivateKey job.fromUserId = some vault ∧
    worker.decrypt vault = some user ∧ sdk.addressFromString worker.contractId = some contract ∧
    a.publicKeyRaw = sdk.rawPublicKey user ∧
    a.signature = sdk.sign user
      (delegatedPayload a.fromAddr a.toAddr a.amount nonceVal contract)

theorem processRedemptionTransfer_ok {sdk : Sdk} {worker : Worker sdk} {signer : sdk.Keypair}
    {nonceVal : I128} {job : RedemptionJob} {a : Delegated} :
    processRedemptionTransfer worker signer nonceVal job = .ok a ↔
      Submitted sdk worker signer nonceVal job a := by
  simp only [processRedemptionTransfer, executeDelegatedTransfer, TokenAmount.parse_toText,
    bind_eq_ok, orFail_eq_ok, Option.bind_eq_bind, Option.bind_eq_some_iff, Option.some.injEq,
    SWord.ofInt?_eq_some]
  constructor
  · rintro ⟨vault, hvault, user, huser, amountBig, ⟨x, hx, hamount⟩, fromAddr, hfrom, toAddr, hto,
      contract, hcontract, nonce, hnonce, x', hx', amountBig', hamount', caller, hcaller, fromAddr',
      hfrom', toAddr', hto', z, hz, nonceBig, hnonceBig, rfl⟩
    -- both sides read the same text of the same values
    obtain rfl := Option.some.inj (hfrom.symm.trans hfrom')
    obtain rfl := Option.some.inj (hto.symm.trans hto')
    obtain rfl := Option.some.inj (hx.symm.trans hx')
    obtain rfl := Option.some.inj (hamount.symm.trans hamount')
    exact ⟨⟨hcaller, hfrom, hto⟩, Option.bind_eq_some_iff.mpr ⟨x, hx, hamount⟩,
      Option.bind_eq_some_iff.mpr ⟨nonce, hnonce, hnonceBig ▸ hz⟩,
      ⟨vault, user, contract, hvault, huser, hcontract, rfl, rfl⟩⟩
  · rintro ⟨⟨hcaller, hfrom, hto⟩, hamount, hnonce, vault, user, contract, hvault, huser, hcontract,
      hkey, hsignature⟩
    obtain ⟨x, hx, hx'⟩ := Option.bind_eq_some_iff.mp hamount
    obtain ⟨nonce, hnonce, hz⟩ := Option.bind_eq_some_iff.mp hnonce
    refine ⟨vault, hvault, user, huser, a.amount, ⟨x, hx, hx'⟩, a.fromAddr, hfrom, a.toAddr, hto,
      contract, hcontract, nonce, hnonce, x, hx, a.amount, hx', a.caller, hcaller, a.fromAddr,
      hfrom, a.toAddr, hto, a.nonce.val, hz, a.nonce, rfl, ?_⟩
    rw [← hkey, ← delegatedPayload, ← hsignature]

/-! ### The amount in stroops -/

/-- The exact amount of a job that stands for `n` stroops. -/
def ecoOf (n : ℕ) : ℚ := n / 10000000

theorem ecoOf_mul (n : ℕ) : ecoOf n * 10000000 = n := by
  rw [ecoOf]
  field_simp

theorem abs_ecoOf (n : ℕ) : |ecoOf n| = ecoOf n := abs_of_nonneg (by unfold ecoOf; positivity)

theorem abs_ecoOf_lt {n : ℕ} (hn : n < 2 ^ 28 * 10000000) : |ecoOf n| < 2 ^ (28 : ℤ) := by
  rw [abs_ecoOf, ecoOf, div_lt_iff₀ (by norm_num)]
  exact_mod_cast hn

theorem abs_scaled_sub_le {n : ℕ} (hn : n < 2 ^ 28 * 10000000) :
    |fl (ecoOf n) * 10000000 - n| ≤ 10000000 / 2 ^ 26 := by
  have hfirst := abs_fl_sub_le_of_lt (abs_ecoOf_lt hn) (by norm_num)
  rw [← ecoOf_mul n, ← sub_mul, abs_mul]
  have := mul_le_mul_of_nonneg_right hfirst (abs_nonneg (10000000 : ℚ))
  norm_num at this ⊢
  linarith

theorem abs_scaled_lt {n : ℕ} (hn : n < 2 ^ 28 * 10000000) :
    |fl (ecoOf n) * 10000000| < 2 ^ (52 : ℤ) := by
  have hscaled := abs_scaled_sub_le hn
  have htri := abs_add_le (fl (ecoOf n) * 10000000 - n) (n : ℚ)
  have hn' : (n : ℚ) < 2684354560000000 := by exact_mod_cast hn
  rw [sub_add_cancel, Nat.abs_cast] at htri
  norm_num at hscaled
  calc |fl (ecoOf n) * 10000000| < 4503599627370496 := by linarith
    _ = 2 ^ (52 : ℤ) := by norm_num

theorem abs_product_sub_lt {n : ℕ} (hn : n < 2 ^ 28 * 10000000) :
    |fl (fl (ecoOf n) * 10000000) - n| < 1 / 2 := by
  have hscaled := abs_scaled_sub_le hn
  have hsecond := abs_fl_sub_le_of_lt (abs_scaled_lt hn) (by norm_num)
  have htri := abs_add_le (fl (fl (ecoOf n) * 10000000) - fl (ecoOf n) * 10000000)
    (fl (ecoOf n) * 10000000 - n)
  rw [sub_add_sub_cancel] at htri
  norm_num at hscaled hsecond
  linarith

theorem round_eq_of_abs_sub_lt {x : ℚ} {n : ℤ} (h : |x - n| < 1 / 2) : round x = n := by
  obtain ⟨hl, hu⟩ := abs_lt.mp h
  exact round_eq_iff.mpr ⟨by linarith, by linarith⟩

theorem stroops_eq_some {x : Double} {amount : I128} :
    stroops x = some amount ↔
      |fl (x.val * 10000000)| < 2 ^ 1024 ∧ amount.val = round (fl (x.val * 10000000)) := by
  unfold stroops
  rw [Option.bind_eq_bind, Option.bind_eq_some_iff]
  constructor
  · rintro ⟨product, hproduct, hamount⟩
    have hval : product.val = fl (x.val * 10000000) := Double.ofRat?_eq_some.mp hproduct
    rw [← hval]
    exact ⟨product.finite, SWord.ofInt?_eq_some.mp hamount⟩
  · rintro ⟨hfinite, hamount⟩
    obtain ⟨product, hproduct, hval⟩ := Double.exists_ofRat? hfinite
    exact ⟨product, hproduct, SWord.ofInt?_eq_some.mpr (by rw [hamount, hval])⟩

theorem stroops_exact {t : TokenAmount} {n : ℕ} (ht : t.Denotes (ecoOf n))
    (hn : n < 2 ^ 28 * 10000000) :
    ∃ amount, t.toNumber.bind stroops = some amount ∧ amount.val = n := by
  have hround : round (fl (fl (ecoOf n) * 10000000)) = n :=
    round_eq_of_abs_sub_lt (by exact_mod_cast abs_product_sub_lt hn)
  have hfits : Fits 128 (n : ℤ) := by
    constructor
    · norm_num
    · norm_num
      omega
  obtain ⟨x, hx, hval⟩ := TokenAmount.exists_toNumber ht
    (finite_fl_of_lt (abs_ecoOf_lt hn) (by norm_num) (by norm_num))
  refine ⟨⟨n, hfits⟩, Option.bind_eq_some_iff.mpr ⟨x, hx, stroops_eq_some.mpr ?_⟩, rfl⟩
  rw [hval]
  exact ⟨finite_fl_of_lt (abs_scaled_lt hn) (by norm_num) (by norm_num), hround.symm⟩

theorem stroops_pos {t : TokenAmount} {n : ℕ} {amount : I128} (ht : t.Denotes (ecoOf n))
    (hn : 0 < n) (h : t.toNumber.bind stroops = some amount) : 0 < amount.val := by
  obtain ⟨x, hx, hstroops⟩ := Option.bind_eq_some_iff.mp h
  rw [(stroops_eq_some.mp hstroops).2, TokenAmount.toNumber_val ht hx]
  have hn' : (1 : ℚ) ≤ n := by exact_mod_cast hn
  have heco : 2 ^ (-24 : ℤ) ≤ ecoOf n := by
    rw [ecoOf]
    norm_num
    linarith
  have hfirst := three_quarters_le_fl heco
  have hscaled : 3 / 4 ≤ fl (ecoOf n) * 10000000 := by
    linarith [ecoOf_mul n]
  have hsecond := three_quarters_le_fl (x := fl (ecoOf n) * 10000000)
    (le_trans (by norm_num) hscaled)
  rw [round_eq]
  refine lt_of_lt_of_le zero_lt_one (Int.le_floor.mpr ?_)
  push_cast
  linarith

/-! ### The submitted call against the contract -/

theorem bigInt_of_intCast {z : ℤ} (h : |z| < 2 ^ 53) :
    (Double.ofRat? z).bind bigInt = some z := by
  have hfl : fl (z : ℚ) = z := fl_intCast h
  have hsmall : |(z : ℚ)| < 2 ^ (53 : ℤ) := by exact_mod_cast h
  obtain ⟨x, hx, hval⟩ := Double.exists_ofRat?
    (finite_fl_of_lt hsmall (by norm_num) (by norm_num))
  rw [hx, Option.bind_some, bigInt, hval, hfl]
  simp

/-- What is left for the contract to check of a submitted call. -/
structure Executable (s : State) (a : Delegated) : Prop where
  relayer : WorkerOrOwner s a.caller
  ownKey : a.fromAddr.trailing = a.publicKeyRaw
  freshNonce : a.nonce.val = nonceOf s a.fromAddr
  funded : a.amount.val ≤ balanceOf s a.fromAddr
  creditFits : Fits 128 (balanceOf s a.toAddr + a.amount.val)

/-- The signature part of a submitted call: made over the message the contract rebuilds. -/
def SignsOwnMessage (sdk : Sdk) (host : Host) (a : Delegated) : Prop :=
  ∃ user, a.publicKeyRaw = sdk.rawPublicKey user ∧
    a.signature = sdk.sign user
      (delegatedPayload a.fromAddr a.toAddr a.amount a.nonce host.currentContractAddress)

variable {sdk : Sdk} {host : Host} {worker : Worker sdk} {signer : sdk.Keypair}
  {nonceVal : I128} {job : RedemptionJob} {a : Delegated}

theorem submitted_nonce (h : Submitted sdk worker signer nonceVal job a) (h0 : 0 ≤ nonceVal.val)
    (h53 : nonceVal.val < 2 ^ 53) : a.nonce = nonceVal := by
  have hexact := bigInt_of_intCast (z := nonceVal.val) (by rwa [abs_of_nonneg h0])
  exact SWord.ext (Option.some.inj (h.nonce.symm.trans hexact))

theorem submitted_signs (h : Submitted sdk worker signer nonceVal job a)
    (hcontract : sdk.addressFromString worker.contractId = some host.currentContractAddress)
    (hnonce : a.nonce = nonceVal) : SignsOwnMessage sdk host a := by
  obtain ⟨_, user, contract, _, _, hc, hkey, hsignature⟩ := h.signed
  obtain rfl := Option.some.inj (hc.symm.trans hcontract)
  exact ⟨user, hkey, by rw [hsignature, hnonce]⟩

theorem signed_accepted_iff (hsdk : sdk.Lawful host) (hsigned : SignsOwnMessage sdk host a)
    (hpos : 0 < a.amount.val) (h53 : a.nonce.val < 2 ^ 53) (s : State) (timestamp : UInt64)
    (sequence : UInt32) :
    (∃ s', Accepted host s ⟨[a.caller], timestamp, sequence, .transferDelegated a⟩ s') ↔
      Executable s a := by
  rw [delegated_accepted_iff rfl]
  constructor
  · rintro ⟨⟨hrole, -⟩, hkey, hcurrent, -, -, hmovable⟩
    exact ⟨hrole, hkey, hcurrent, hmovable.funded, hmovable.fits⟩
  · rintro ⟨hrole, hkey, hcurrent, hfunded, hfits⟩
    obtain ⟨user, huser, hsignature⟩ := hsigned
    have hnext : Fits 128 (nonceOf s a.fromAddr + 1) := by
      obtain ⟨hlow, -⟩ := a.nonce.fits
      rw [← hcurrent]
      constructor
      · omega
      · norm_num
        omega
    refine ⟨⟨hrole, List.mem_singleton_self _⟩, hkey, hcurrent, hnext, ?_, hpos, hfunded, hfits⟩
    rw [huser, hsignature]
    exact hsdk.verify_sign user _

/-- For every amount the worker signs the message the contract rebuilds from the submitted call,
with the nonce it read; the call then fails only for its relayer, its key, a stale nonce, the
balance or the receiver's range. Below 2 ^ 28 tokens the call exists and its amount is exact. -/
theorem redemption_transfer_agrees (hsdk : sdk.Lawful host)
    (hcontract : sdk.addressFromString worker.contractId = some host.currentContractAddress)
    {n : ℕ} (hn : 0 < n) (hamount : job.tokenAmount.Denotes (ecoOf n)) (h0 : 0 ≤ nonceVal.val)
    (h53 : nonceVal.val < 2 ^ 53) :
    (∀ a, processRedemptionTransfer worker signer nonceVal job = .ok a →
      SignsOwnMessage sdk host a ∧ a.nonce = nonceVal ∧
        ∀ s timestamp sequence,
          (∃ s', Accepted host s ⟨[a.caller], timestamp, sequence, .transferDelegated a⟩ s') ↔
            Executable s a) ∧
    (n < 2 ^ 28 * 10000000 → ∀ vault user x y,
      worker.encryptedPrivateKey job.fromUserId = some vault → worker.decrypt vault = some user →
      sdk.addressFromString job.fromWallet = some x →
      sdk.addressFromString job.toWallet = some y →
      ∃ a, processRedemptionTransfer worker signer nonceVal job = .ok a ∧ a.fromAddr = x ∧
        a.toAddr = y ∧ a.publicKeyRaw = sdk.rawPublicKey user ∧ a.amount.val = n) := by
  constructor
  · intro a hok
    have hsub := processRedemptionTransfer_ok.mp hok
    have hnonce := submitted_nonce hsub h0 h53
    have hsigned := submitted_signs hsub hcontract hnonce
    exact ⟨hsigned, hnonce, signed_accepted_iff hsdk hsigned
      (stroops_pos hamount hn hsub.amount) (hnonce ▸ h53)⟩
  · intro hsmall vault user x y hvault huser hfrom hto
    obtain ⟨amount, hstroops, hval⟩ := stroops_exact hamount hsmall
    refine ⟨⟨.account (sdk.rawPublicKey signer), x, y, amount, nonceVal, sdk.rawPublicKey user,
      sdk.sign user (delegatedPayload x y amount nonceVal host.currentContractAddress)⟩,
      processRedemptionTransfer_ok.mpr ⟨⟨hsdk.publicKey_address signer, hfrom, hto⟩, hstroops,
        bigInt_of_intCast (by rwa [abs_of_nonneg h0]),
        vault, user, _, hvault, huser, hcontract, rfl, rfl⟩, rfl, rfl, rfl, hval⟩

/-! ### A worker for concrete jobs -/

def sampleSdk : Sdk where
  Keypair := Bool
  rawPublicKey k := BytesN.fill 32 (if k then 1 else 0)
  publicKey k := if k then "alice" else "admin"
  sign _ _ := BytesN.fill 64 0
  addressFromString text :=
    if text = "alice" then some alice
    else if text = "admin" then some admin
    else if text = "bob" then some bob
    else if text = "registry" then some sampleHost.currentContractAddress
    else none

theorem sampleSdk_lawful : sampleSdk.Lawful sampleHost where
  verify_sign _ _ := rfl
  publicKey_address k := by cases k <;> decide

def sampleWorker : Worker sampleSdk where
  contractId := "registry"
  encryptedPrivateKey _ := some "vault"
  decrypt _ := some true

def redeeming (d : Decimal) : RedemptionJob := ⟨"user", "alice", "bob", .text d⟩

theorem redemption_transfer_agrees_sample :
    (∀ a, processRedemptionTransfer sampleWorker false 0 (redeeming ⟨125, -1⟩) = .ok a →
      SignsOwnMessage sampleSdk sampleHost a ∧ a.nonce = 0 ∧
        ∀ s timestamp sequence,
          (∃ s', Accepted sampleHost s
            ⟨[a.caller], timestamp, sequence, .transferDelegated a⟩ s') ↔ Executable s a) ∧
    (125000000 < 2 ^ 28 * 10000000 → ∀ vault user x y,
      sampleWorker.encryptedPrivateKey (redeeming ⟨125, -1⟩).fromUserId = some vault →
      sampleWorker.decrypt vault = some user →
      sampleSdk.addressFromString (redeeming ⟨125, -1⟩).fromWallet = some x →
      sampleSdk.addressFromString (redeeming ⟨125, -1⟩).toWallet = some y →
      ∃ a, processRedemptionTransfer sampleWorker false 0 (redeeming ⟨125, -1⟩) = .ok a ∧
        a.fromAddr = x ∧ a.toAddr = y ∧ a.publicKeyRaw = sampleSdk.rawPublicKey user ∧
        a.amount.val = (125000000 : ℕ)) :=
  redemption_transfer_agrees sampleSdk_lawful rfl (by decide)
    (show (125 : ℤ) * (10 : ℚ) ^ (-1 : ℤ) = ecoOf 125000000 by norm_num [ecoOf]) le_rfl (by decide)

/-- 268435456.0000017 tokens are signed as one stroop more. -/
theorem largeAmount_inexact : ∃ a,
    processRedemptionTransfer sampleWorker false 0 (redeeming ⟨2684354560000017, -7⟩) = .ok a ∧
      (a.amount.val : ℚ) ≠ (Decimal.value ⟨2684354560000017, -7⟩) * 10 ^ 7 := by
  have hamount : (processRedemptionTransfer sampleWorker false 0
      (redeeming ⟨2684354560000017, -7⟩)).toOption.map (fun a => a.amount.val) =
        some 2684354560000018 := by decide +kernel
  cases h : processRedemptionTransfer sampleWorker false 0
      (redeeming ⟨2684354560000017, -7⟩) with
  | error e =>
    rw [h] at hamount
    cases hamount
  | ok a =>
    rw [h] at hamount
    have hval : a.amount.val = 2684354560000018 := Option.some.inj hamount
    refine ⟨a, rfl, ?_⟩
    rw [hval]
    norm_num [Decimal.value]

end Livora.DelegatedRedemption
