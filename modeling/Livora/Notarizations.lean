import Livora.RegistryBatches
import Livora.Submissions

/-! `BlockchainService.notarizeBatchReceipt` against the contract. An error whose text is taken for
that of a contract without the function makes the service write the receipt into its own account
instead, and a panic of the contract has such a text. -/

namespace Livora.Notarizations

open CheckedWords StellarXdr TrappingState RegistryStorage RegistryContract RegistryCalls RegistryEffects
open RegistryBatches ConfirmationLoops TransitionRuns

/-! ### What is sent -/

def hexValue (c : Char) : Option ℕ :=
  if '0' ≤ c ∧ c ≤ '9' then some (c.toNat - '0'.toNat)
  else if 'a' ≤ c ∧ c ≤ 'f' then some (c.toNat - 'a'.toNat + 10)
  else if 'A' ≤ c ∧ c ≤ 'F' then some (c.toNat - 'A'.toNat + 10)
  else none

/-- `Buffer.from(text, 'hex')`, up to the first pair that is no byte. -/
def fromHex : List Char → Bytes
  | c :: d :: rest =>
    match hexValue c, hexValue d with
    | some high, some low => UInt8.ofNat (16 * high + low) :: fromHex rest
    | _, _ => []
  | _ => []

/-- The bytes copied to the front of a buffer of zeros. -/
def copyTo (n : ℕ) (bytes : Bytes) : BytesN n where
  bytes := (bytes.take n) ++ List.replicate (n - (bytes.take n).length) 0
  length_eq := by
    rw [List.length_append, List.length_replicate]
    exact Nat.add_sub_cancel' (List.length_take_le n bytes)

def cleanUuid (batchId : String) : List Char := batchId.toList.filter (· ≠ '-')

def uuid32 (batchId : String) : BytesN 32 := copyTo 32 (fromHex (cleanUuid batchId))

/-- The name and the value of the entry that stands for a receipt. -/
def entryName (batchId : String) : String := "LIVO_" ++ String.ofList ((cleanUuid batchId).take 16)

def entryValue (ipfsCid : String) : String := String.ofList (ipfsCid.toList.take 64)

inductive Tx where
  | invoke (call : Call)
  | manageData (name value : String)

/-! ### The ledger, and one transaction on it -/

/-- What the transactions of the call have met, kept for statements only. -/
inductive Mark where
  | rejected
  | notarized
  | entered
deriving DecidableEq

structure Chain where
  contract : State
  entries : List (Address × String × String)
  marks : List Mark

/-- The ledger that an invocation runs in. -/
structure Ledger where
  timestamp : UInt64
  sequence : UInt32

/-- What happens around one transaction: what others do, what the RPC tells, and where it is
included. -/
structure Sending where
  before : List Invocation
  /-- The text of a failure before the submission that is not the contract's. -/
  failure : Option String
  simulated : Ledger
  between : List Invocation
  included : Option Ledger
  later : List Invocation
  /-- The text of an error that is thrown whatever has become of the transaction. -/
  lost : Option String
  hash : String
  answer : Answer

structure Network where
  host : Host
  /-- The text of a simulation that the contract has ended with a trap. -/
  trapText : Trap → String

variable (net : Network) (signer : Address)

def Chain.others (c : Chain) (is : List Invocation) : Chain :=
  { c with contract := after net.host c.contract is }

def Chain.mark (c : Chain) (m : Mark) : Chain := { c with marks := c.marks ++ [m] }

def invocation (call : Call) (l : Ledger) : Invocation := ⟨[signer], l.timestamp, l.sequence, call⟩

def trapOf (c : Chain) (l : Ledger) : Tx → Option Trap
  | .invoke call =>
    match (exec (Host.env net.host (invocation signer call l)) call).run c.contract with
    | .ok _ => none
    | .error t => some t
  | .manageData _ _ => none

def Chain.include (c : Chain) (l : Ledger) (tx : Tx) : Chain :=
  match trapOf net signer c l tx, tx with
  | some _, _ => c.mark .rejected
  | none, .invoke call =>
    { c with contract := commit (exec (Host.env net.host (invocation signer call l)) call) c.contract }.mark
      .notarized
  | none, .manageData name value =>
    { c with entries := c.entries ++ [(signer, name, value)] }.mark .entered

def finalStatus (c : Chain) (tx : Tx) : Option Ledger → Status
  | none => .notFound
  | some l => if (trapOf net signer c l tx).isSome then .failed else .success

/-- `sendTransaction` on the ledger. -/
def sendTransaction (tx : Tx) (s : Sending) (c : Chain) : Except String Receipt × Chain :=
  let c := c.others net s.before
  match s.failure, trapOf net signer c s.simulated tx with
  | some text, _ => (.error text, c)
  | none, some t =>
    (.error (Submissions.sendTransaction.simulation ++ net.trapText t), c.mark .rejected)
  | none, none =>
    let c := c.others net s.between
    let c' := (s.included.elim c fun l => c.include net signer l tx).others net s.later
    match s.lost with
    | some text => (.error text, c')
    | none => (result Submissions.sendTransaction.failure s.hash
        { s.answer with status := finalStatus net signer c tx s.included }, c')

/-! ### The call -/

def includes (text part : String) : Bool := decide (part.toList <:+: text.toList)

/-- The texts that are taken for a contract without the function. -/
def lacksFunction (errMsg : String) : Bool :=
  includes errMsg "MissingValue" || includes errMsg "non-existent contract function" ||
    includes errMsg "HostError" || includes errMsg "trying to invoke"

def badSequence (msg : String) : Bool := includes msg "tx_bad_seq" || includes msg "bad_seq"

/-- The arguments of a call; the center is its own address where that is valid. -/
structure Request where
  batchId : String
  ipfsCid : String
  center : Option Address

/-- What happens in one round: the account is read before each transaction, and that may fail. -/
structure Round where
  account : Option String
  receipt : Sending
  fallbackAccount : Option String
  fallback : Sending

variable (req : Request)

def receiptTx : Tx :=
  .invoke (.notarizeBatchReceipt signer (uuid32 req.batchId) (req.center.getD signer) req.ipfsCid)

def fallbackTx : Tx := .manageData (entryName req.batchId) (entryValue req.ipfsCid)

def sendFallback (r : Round) (c : Chain) : Except String Receipt × Chain :=
  match r.fallbackAccount with
  | some text => (.error text, c)
  | none => sendTransaction net signer (fallbackTx req) r.fallback c

def buildAndSend (r : Round) (c : Chain) : Except String Receipt × Chain :=
  match r.account with
  | some text => (.error text, c)
  | none =>
    match sendTransaction net signer (receiptTx signer req) r.receipt c with
    | (.ok receipt, c) => (.ok receipt, c)
    | (.error errMsg, c) =>
      if lacksFunction errMsg then sendFallback net signer req r c else (.error errMsg, c)

def executeWithSigner (first second : Round) (c : Chain) : Except String Receipt × Chain :=
  match buildAndSend net signer req first c with
  | (.ok receipt, c) => (.ok receipt, c)
  | (.error msg, c) =>
    if badSequence msg then buildAndSend net signer req second c else (.error msg, c)

/-- No account of the channels may be free in time. -/
def notarizeBatchReceipt (channel : Except String Address) (first second : Round) (c : Chain) :
    Except String Receipt × Chain :=
  match channel with
  | .error text => (.error text, c)
  | .ok signer => executeWithSigner net signer req first second c

/-! ### What one transaction does -/

def Tx.mark : Tx → Mark
  | .invoke _ => .notarized
  | .manageData _ _ => .entered

/-- The transaction gets past the RPC and is included. -/
structure Sending.Enters (s : Sending) : Prop where
  sent : s.failure = none
  included : s.included ≠ none

inductive Sent (tx : Tx) (s : Sending) (ms : List Mark) : Except String Receipt × Chain → Prop where
  | nothing (text : String) (c : Chain) (hout : ¬ s.Enters) (hmarks : c.marks = ms) :
      Sent tx s ms (.error text, c)
  | rejected (text : String) (c : Chain) (hcall : tx.mark = .notarized)
      (hmarks : c.marks = ms ++ [.rejected]) : Sent tx s ms (.error text, c)
  | lost (text : String) (c : Chain) (hin : s.Enters) (hlost : s.lost = some text)
      (hmarks : c.marks = ms ++ [tx.mark]) : Sent tx s ms (.error text, c)
  | done (receipt : Receipt) (c : Chain) (hin : s.Enters) (hlost : s.lost = none)
      (hmarks : c.marks = ms ++ [tx.mark]) : Sent tx s ms (.ok receipt, c)

variable {net : Network} {signer : Address} {req : Request} {c c' : Chain} {tx : Tx} {s : Sending}
variable {l : Ledger} {r : Round}

theorem mark_of_trap {t : Trap} (h : trapOf net signer c l tx = some t) : tx.mark = .notarized := by
  cases tx with
  | invoke call => rfl
  | manageData name value => cases h

theorem include_marks_of_trap {t : Trap} (h : trapOf net signer c l tx = some t) :
    (c.include net signer l tx).marks = c.marks ++ [.rejected] := by
  simp only [Chain.include, h]
  rfl

theorem include_marks_of_none (h : trapOf net signer c l tx = none) :
    (c.include net signer l tx).marks = c.marks ++ [tx.mark] := by
  cases tx <;> simp only [Chain.include, h] <;> rfl

theorem sendTransaction_of_failure {text : String} (h : s.failure = some text) :
    sendTransaction net signer tx s c = (.error text, c.others net s.before) := by
  simp only [sendTransaction, h]

theorem sendTransaction_of_trap {t : Trap} (h : s.failure = none)
    (ht : trapOf net signer (c.others net s.before) s.simulated tx = some t) :
    sendTransaction net signer tx s c =
      (.error (Submissions.sendTransaction.simulation ++ net.trapText t),
        (c.others net s.before).mark .rejected) := by
  simp only [sendTransaction, h, ht]

theorem sendTransaction_of_none (h : s.failure = none)
    (ht : trapOf net signer (c.others net s.before) s.simulated tx = none) :
    ∃ d, d.marks = c.marks ∧ d.contract = after net.host c.contract (s.before ++ s.between) ∧
      sendTransaction net signer tx s c =
        (s.lost.elim (result Submissions.sendTransaction.failure s.hash
            { s.answer with status := finalStatus net signer d tx s.included }) .error,
          (s.included.elim d fun l => d.include net signer l tx).others net s.later) := by
  refine ⟨(c.others net s.before).others net s.between, rfl, ?_, ?_⟩
  · simp [Chain.others, after]
  · simp only [sendTransaction, h, ht]
    cases s.lost <;> rfl

theorem sent (tx : Tx) (s : Sending) (c : Chain) :
    Sent tx s c.marks (sendTransaction net signer tx s c) := by
  cases hf : s.failure with
  | some text =>
    rw [sendTransaction_of_failure hf]
    exact .nothing _ _ (fun h => by simp [h.sent] at hf) rfl
  | none =>
    cases ht : trapOf net signer (c.others net s.before) s.simulated tx with
    | some t =>
      rw [sendTransaction_of_trap hf ht]
      exact .rejected _ _ (mark_of_trap ht) rfl
    | none =>
      obtain ⟨d, hmarks, -, hsend⟩ := sendTransaction_of_none hf ht
      rw [hsend, ← hmarks]
      cases hi : s.included with
      | none =>
        have hout : ¬ s.Enters := fun h => h.included hi
        cases s.lost with
        | some text => exact .nothing _ _ hout rfl
        | none => exact .nothing _ _ hout rfl
      | some l =>
        have hin : s.Enters := ⟨hf, by simp [hi]⟩
        cases htrap : trapOf net signer d l tx with
        | some t =>
          have hleft := include_marks_of_trap htrap
          cases s.lost with
          | some text => exact .rejected _ _ (mark_of_trap htrap) hleft
          | none =>
            simp only [finalStatus, htrap, result, Option.isSome_some, if_true, reduceCtorEq,
              if_false]
            exact .rejected _ _ (mark_of_trap htrap) hleft
        | none =>
          have hleft := include_marks_of_none htrap
          cases hlost : s.lost with
          | some text => exact .lost _ _ hin hlost hleft
          | none =>
            simp only [finalStatus, htrap, result, Option.isSome_none, Bool.false_eq_true, if_false,
              if_true]
            exact .done _ _ hin hlost hleft

/-! ### Honest answers -/

def Quiet (ms : List Mark) : Prop :=
  ∀ pre post, ms = pre ++ .rejected :: post → ∀ m ∈ post, m = .rejected

theorem quiet_nil : Quiet [] := fun pre post h => by simp at h

theorem Quiet.of_append {ms ms' : List Mark} (h : Quiet (ms ++ ms')) : Quiet ms := by
  rintro pre post rfl m hm
  exact h pre (post ++ ms') (by simp) m (List.mem_append_left _ hm)

theorem quiet_reject {ms : List Mark} (h : Quiet ms) : Quiet (ms ++ [.rejected]) := by
  intro pre post hsplit m hm
  rcases List.eq_nil_or_concat post with rfl | ⟨post, m', rfl⟩
  · cases hm
  · rw [List.concat_eq_append, ← List.cons_append, ← List.append_assoc] at hsplit
    obtain ⟨rfl, hm'⟩ := List.append_inj' hsplit rfl
    rcases List.mem_append.mp (List.concat_eq_append ▸ hm) with hm | hm
    · exact h pre post rfl m hm
    · rw [List.mem_singleton.mp hm]
      exact (List.singleton_inj.mp hm').symm

theorem quiet_write_iff {ms : List Mark} {m : Mark} (hm : m ≠ .rejected) :
    Quiet (ms ++ [m]) ↔ .rejected ∉ ms := by
  constructor
  · intro h hmem
    obtain ⟨pre, post, rfl⟩ := List.append_of_mem hmem
    exact hm (h pre (post ++ [m]) (by simp) m (by simp))
  · intro hno pre post hsplit
    have hmem : Mark.rejected ∈ ms ++ [m] := by rw [hsplit]; simp
    rcases List.mem_append.mp hmem with h | h
    · exact absurd h hno
    · exact absurd (List.mem_singleton.mp h).symm hm

/-- A receipt stands for a notarization, and no rejection is passed over. -/
structure Honest (o : Except String Receipt × Chain) : Prop where
  notarized : ∀ receipt, o.1 = .ok receipt → .notarized ∈ o.2.marks
  reported : .rejected ∈ o.2.marks → ∃ text, o.1 = .error text
  quiet : Quiet o.2.marks

/-- What a fallback that gets into the ledger must find: no rejection before, and if it is answered
with a receipt, a notarization. -/
structure HarmlessFallback (r : Round) (ms : List Mark) : Prop where
  unrejected : r.fallbackAccount = none → r.fallback.Enters → .rejected ∉ ms
  notarized : r.fallbackAccount = none → r.fallback.Enters → r.fallback.lost = none →
    .notarized ∈ ms

theorem honest_error {text : String} : Honest (.error text, c) ↔ Quiet c.marks :=
  ⟨Honest.quiet, fun h => ⟨fun _ h => (by cases h), fun _ => ⟨text, rfl⟩, h⟩⟩

theorem honest_ok {receipt : Receipt} :
    Honest (.ok receipt, c) ↔ .notarized ∈ c.marks ∧ .rejected ∉ c.marks := by
  constructor
  · rintro ⟨hn, hr, -⟩
    exact ⟨hn receipt rfl, fun hmem => by obtain ⟨_, h⟩ := hr hmem; cases h⟩
  · rintro ⟨hn, hr⟩
    refine ⟨fun _ _ => hn, fun h => absurd h hr, fun pre post hsplit => ?_⟩
    exact absurd (hsplit ▸ by simp) hr

theorem fallback_honest_iff (hq : Quiet c.marks) :
    Honest (sendFallback net signer req r c) ↔ HarmlessFallback r c.marks := by
  unfold sendFallback
  cases ha : r.fallbackAccount with
  | some text =>
    exact iff_of_true (honest_error.mpr hq) ⟨fun h => by simp [ha] at h, fun h => by simp [ha] at h⟩
  | none =>
    have hwrite : ∀ {d : Chain}, d.marks = c.marks ++ [(fallbackTx req).mark] →
        (Quiet d.marks ↔ .rejected ∉ c.marks) := fun {d} hd => by
      rw [hd]
      exact quiet_write_iff (show Mark.entered ≠ .rejected by decide)
    have hsent : Sent (fallbackTx req) r.fallback c.marks
      (sendTransaction net signer _ r.fallback c) :=
      sent _ _ _
    generalize sendTransaction net signer (fallbackTx req) r.fallback c = o at hsent ⊢
    cases hsent with
    | nothing text d hout hmarks =>
      rw [honest_error, hmarks]
      exact iff_of_true hq ⟨fun _ h => absurd h hout, fun _ h => absurd h hout⟩
    | rejected text d hcall => cases hcall
    | lost text d hin hlost hmarks =>
      rw [honest_error, hwrite hmarks]
      exact ⟨fun h => ⟨fun _ _ => h, fun _ _ h => by simp [hlost] at h⟩, fun h =>
        h.unrejected ha hin⟩
    | done receipt d hin hlost hmarks =>
      rw [honest_ok, hmarks]
      simp only [List.mem_append, List.mem_singleton, fallbackTx, Tx.mark, reduceCtorEq, or_false]
      exact ⟨fun h => ⟨fun _ _ => h.2, fun _ _ _ => h.1⟩,
        fun h => ⟨h.notarized ha hin hlost, h.unrejected ha hin⟩⟩

/-! ### Rounds -/

/-- What the fallback of a round finds, where it has one; and a round that notarizes finds no
rejection. -/
structure HarmlessRound (net : Network) (signer : Address) (req : Request) (r : Round) (c : Chain) :
    Prop where
  unrejected : r.account = none →
    (sendTransaction net signer (receiptTx signer req) r.receipt c).2.marks = c.marks ++
      [.notarized] →
      .rejected ∉ c.marks
  fallback : r.account = none → ∀ errMsg,
    (sendTransaction net signer (receiptTx signer req) r.receipt c).1 = .error errMsg →
      lacksFunction errMsg = true → HarmlessFallback r
        (sendTransaction net signer (receiptTx signer req) r.receipt c).2.marks

theorem fallback_extends (r : Round) (c : Chain) :
    ∃ ms, (sendFallback net signer req r c).2.marks = c.marks ++ ms := by
  unfold sendFallback
  cases r.fallbackAccount with
  | some text => exact ⟨[], (List.append_nil _).symm⟩
  | none =>
    have hsent : Sent (fallbackTx req) r.fallback c.marks
      (sendTransaction net signer _ r.fallback c) :=
      sent _ _ _
    generalize sendTransaction net signer (fallbackTx req) r.fallback c = o at hsent ⊢
    cases hsent with
    | nothing text d _ hmarks => exact ⟨[], by rw [hmarks, List.append_nil]⟩
    | rejected text d _ hmarks => exact ⟨_, hmarks⟩
    | lost text d _ _ hmarks => exact ⟨_, hmarks⟩
    | done receipt d _ _ hmarks => exact ⟨_, hmarks⟩

theorem fallback_quiet (h : Honest (sendFallback net signer req r c)) : Quiet c.marks := by
  obtain ⟨ms, hms⟩ : ∃ ms, (sendFallback net signer req r c).2.marks = c.marks ++ ms :=
    fallback_extends r c
  have hquiet := h.quiet
  rw [hms] at hquiet
  exact hquiet.of_append

theorem round_honest_iff (hq : Quiet c.marks) :
    Honest (buildAndSend net signer req r c) ↔ HarmlessRound net signer req r c := by
  unfold buildAndSend
  cases ha : r.account with
  | some text =>
    exact iff_of_true (honest_error.mpr hq) ⟨fun h => by simp [ha] at h, fun h => by simp [ha] at h⟩
  | none =>
    have hsent : Sent (receiptTx signer req) r.receipt c.marks
        (sendTransaction net signer _ r.receipt c) := sent _ _ _
    have hdef : HarmlessRound net signer req r c ↔
        ((sendTransaction net signer (receiptTx signer req) r.receipt c).2.marks =
            c.marks ++ [.notarized] → .rejected ∉ c.marks) ∧
          ∀ errMsg, (sendTransaction net signer (receiptTx signer req) r.receipt c).1 =
            .error errMsg →
            lacksFunction errMsg = true → HarmlessFallback r
              (sendTransaction net signer (receiptTx signer req) r.receipt c).2.marks :=
      ⟨fun h => ⟨h.unrejected ha, h.fallback ha⟩, fun h => ⟨fun _ => h.1, fun _ => h.2⟩⟩
    rw [hdef]
    generalize sendTransaction net signer (receiptTx signer req) r.receipt c = o at hsent ⊢
    have herror : ∀ (text : String) (d : Chain),
        (Quiet d.marks ↔ (d.marks = c.marks ++ [.notarized] → .rejected ∉ c.marks)) →
        (Honest (if lacksFunction text then sendFallback net signer req r d else (.error text, d)) ↔
          (d.marks = c.marks ++ [.notarized] → .rejected ∉ c.marks) ∧
            ∀ errMsg, (.error text : Except String Receipt) = .error errMsg →
              lacksFunction errMsg = true → HarmlessFallback r d.marks) := by
      intro text d hd
      rw [← hd]
      by_cases hl : lacksFunction text = true
      · rw [if_pos hl]
        constructor
        · intro h
          have hquiet := fallback_quiet h
          refine ⟨hquiet, fun errMsg he _ => (fallback_honest_iff hquiet).mp h⟩
        · intro h
          exact (fallback_honest_iff h.1).mpr (h.2 text rfl hl)
      · rw [if_neg hl, honest_error]
        refine ⟨fun h => ⟨h, fun errMsg he hl' => ?_⟩, And.left⟩
        cases he
        exact absurd hl' hl
    cases hsent with
    | nothing text d hout hmarks =>
      refine herror text d ?_
      rw [hmarks]
      exact iff_of_true hq fun h => by simp at h
    | rejected text d hcall hmarks =>
      refine herror text d ?_
      rw [hmarks]
      exact iff_of_true (quiet_reject hq) fun h => by simp at h
    | lost text d hin hlost hmarks =>
      refine herror text d ?_
      rw [hmarks]
      have hwrite : Quiet (c.marks ++ [.notarized]) ↔ .rejected ∉ c.marks :=
        quiet_write_iff (by decide)
      exact hwrite.trans ⟨fun h _ => h, fun h => h rfl⟩
    | done receipt d hin hlost hmarks =>
      simp only
      rw [honest_ok, hmarks]
      simp only [List.mem_append, List.mem_singleton, receiptTx, Tx.mark, reduceCtorEq, or_false,
        or_true, true_and, forall_const, false_imp_iff, and_true]

theorem round_quiet (h : Quiet (buildAndSend net signer req r c).2.marks) : Quiet c.marks := by
  unfold buildAndSend at h
  cases ha : r.account with
  | some text => simpa only [ha] using h
  | none =>
    simp only [ha] at h
    have hsent : Sent (receiptTx signer req) r.receipt c.marks
        (sendTransaction net signer _ r.receipt c) := sent _ _ _
    generalize sendTransaction net signer (receiptTx signer req) r.receipt c = o at hsent h
    have herror : ∀ (text : String) (d : Chain), (∃ ms, d.marks = c.marks ++ ms) →
        Quiet (if lacksFunction text then sendFallback net signer req r d else (.error text,
          d)).2.marks →
          Quiet c.marks := by
      rintro text d ⟨ms, hd⟩ hquiet
      have hmore : ∃ ms', (if lacksFunction text then sendFallback net signer req r d
          else (.error text, d)).2.marks = d.marks ++ ms' := by
        split
        · exact fallback_extends r d
        · exact ⟨[], (List.append_nil _).symm⟩
      obtain ⟨ms', hmore⟩ := hmore
      rw [hmore, hd, List.append_assoc] at hquiet
      exact hquiet.of_append
    cases hsent with
    | nothing text d hout hmarks => exact herror text d ⟨[], by rw [hmarks, List.append_nil]⟩ h
    | rejected text d hcall hmarks => exact herror text d ⟨_, hmarks⟩ h
    | lost text d hin hlost hmarks => exact herror text d ⟨_, hmarks⟩ h
    | done receipt d hin hlost hmarks =>
      simp only at h
      rw [hmarks] at h
      exact h.of_append

/-- The condition on a whole call. -/
structure Harmless (net : Network) (signer : Address) (req : Request) (first second : Round)
    (c : Chain) : Prop where
  round : HarmlessRound net signer req first c
  retry : ∀ msg, (buildAndSend net signer req first c).1 = .error msg → badSequence msg = true →
    HarmlessRound net signer req second (buildAndSend net signer req first c).2

theorem call_honest_iff {first second : Round} (hq : Quiet c.marks) :
    Honest (executeWithSigner net signer req first second c) ↔
      Harmless net signer req first second c := by
  have hround : Honest (buildAndSend net signer req first c) ↔
      HarmlessRound net signer req first c :=
    round_honest_iff hq
  have hsplit : Harmless net signer req first second c ↔
      HarmlessRound net signer req first c ∧ ∀ msg, (buildAndSend net signer req first c).1 =
        .error msg →
        badSequence msg = true →
          HarmlessRound net signer req second (buildAndSend net signer req first c).2 :=
    ⟨fun h => ⟨h.round, h.retry⟩, fun h => ⟨h.1, h.2⟩⟩
  rw [hsplit, ← hround]
  unfold executeWithSigner
  obtain ⟨res, d⟩ := buildAndSend net signer req first c
  cases res with
  | ok receipt => exact ⟨fun h => ⟨h, fun msg he => (by cases he)⟩, And.left⟩
  | error msg =>
    simp only
    by_cases hb : badSequence msg = true
    · rw [if_pos hb, honest_error]
      constructor
      · intro h
        have hd : Quiet d.marks := round_quiet h.quiet
        exact ⟨hd, fun _ _ _ => (round_honest_iff hd).mp h⟩
      · intro h
        exact (round_honest_iff h.1).mpr (h.2 msg rfl hb)
    · rw [if_neg hb]
      refine ⟨fun h => ⟨h, fun msg' he hb' => ?_⟩, And.left⟩
      cases he
      exact absurd hb' hb

/-! ### What the contract reports -/

theorem marker_after {b : BytesN 32} (host : Host) (is : List Invocation) {s : State}
    (h : marker s b = some true) : marker (after host s is) b = some true := by
  refine run_accepted (I := fun s => marker s b = some true) (fun s i s' hm ha => ?_) h
    (run_eq_after host s is)
  by_cases hb : batch? i.call = some b
  · exact (accepted_registers ha hb).marked
  · rw [(batch_frame ha hb).1, hm]

/-- What has been notarized is marked. -/
def Marked (b : BytesN 32) (c : Chain) : Prop :=
  .notarized ∈ c.marks → marker c.contract b = some true

theorem marked_others {b : BytesN 32} (is : List Invocation) (h : Marked b c) :
    Marked b (c.others net is) := fun hm => marker_after net.host is (h hm)

theorem marked_mark {b : BytesN 32} {m : Mark} (hm : m ≠ .notarized) (h : Marked b c) :
    Marked b (c.mark m) := by
  intro hmem
  rcases List.mem_append.mp hmem with hmem | hmem
  · exact h hmem
  · exact absurd (List.mem_singleton.mp hmem).symm hm

def Concerns (b : BytesN 32) : Tx → Prop
  | .invoke call => batch? call = some b
  | .manageData _ _ => True

theorem marked_include {b : BytesN 32} (htx : Concerns b tx) (h : Marked b c) :
    Marked b (c.include net signer l tx) := by
  cases ht : trapOf net signer c l tx with
  | some t =>
    simp only [Chain.include, ht]
    exact marked_mark (by decide) h
  | none =>
    cases tx with
    | invoke call =>
      simp only [Chain.include, ht]
      intro _
      have haccepted : Accepted net.host c.contract (invocation signer call l)
          (commit (exec (Host.env net.host (invocation signer call l)) call) c.contract) := by
        unfold trapOf at ht
        unfold Accepted commit Returns
        simp only [invocation] at ht ⊢
        split at ht
        · rename_i r hrun
          rw [hrun]
        · cases ht
      exact (accepted_registers haccepted htx).marked
    | manageData name value =>
      simp only [Chain.include, ht]
      exact marked_mark (by decide) h

theorem marked_send {b : BytesN 32} (htx : Concerns b tx) (h : Marked b c) :
    Marked b (sendTransaction net signer tx s c).2 := by
  have hbefore : Marked b (c.others net s.before) := marked_others s.before h
  cases hf : s.failure with
  | some text =>
    rw [sendTransaction_of_failure hf]
    exact hbefore
  | none =>
    cases ht : trapOf net signer (c.others net s.before) s.simulated tx with
    | some t =>
      rw [sendTransaction_of_trap hf ht]
      exact marked_mark (by decide) hbefore
    | none =>
      have hsent : Marked b (s.included.elim ((c.others net s.before).others net s.between)
          fun l => ((c.others net s.before).others net s.between).include net signer l tx) := by
        cases s.included with
        | none => exact marked_others s.between hbefore
        | some l => exact marked_include htx (marked_others s.between hbefore)
      simp only [sendTransaction, hf, ht]
      cases s.lost <;> exact marked_others s.later hsent

theorem marked_fallback {b : BytesN 32} (h : Marked b c) :
    Marked b (sendFallback net signer req r c).2 := by
  unfold sendFallback
  cases r.fallbackAccount with
  | some text => exact h
  | none => exact marked_send trivial h

theorem marked_round (h : Marked (uuid32 req.batchId) c) :
    Marked (uuid32 req.batchId) (buildAndSend net signer req r c).2 := by
  unfold buildAndSend
  cases r.account with
  | some text => exact h
  | none =>
    have hsent : Marked (uuid32 req.batchId)
        (sendTransaction net signer (receiptTx signer req) r.receipt c).2 := marked_send rfl h
    generalize sendTransaction net signer (receiptTx signer req) r.receipt c = o at hsent ⊢
    obtain ⟨res, d⟩ := o
    cases res with
    | ok receipt => exact hsent
    | error text =>
      simp only
      split
      · exact marked_fallback hsent
      · exact hsent

theorem marked_call {first second : Round} (h : Marked (uuid32 req.batchId) c) :
    Marked (uuid32 req.batchId) (executeWithSigner net signer req first second c).2 := by
  unfold executeWithSigner
  have hfirst : Marked (uuid32 req.batchId) (buildAndSend net signer req first c).2 :=
    marked_round h
  generalize buildAndSend net signer req first c = o at hfirst ⊢
  obtain ⟨res, d⟩ := o
  cases res with
  | ok receipt => exact hfirst
  | error text =>
    simp only
    split
    · exact marked_round hfirst
    · exact hfirst

/-- A receipt is returned only of a batch that a notarization of the call has registered and the
contract reports as processed; a rejection is thrown, and nothing is written after it. -/
structure Faithful (batchId : BytesN 32) (o : Except String Receipt × Chain) : Prop where
  processed : ∀ receipt, o.1 = .ok receipt → .notarized ∈ o.2.marks ∧
    Returns (isBatchProcessed batchId) o.2.contract true o.2.contract
  reported : .rejected ∈ o.2.marks → ∃ text, o.1 = .error text
  quiet : Quiet o.2.marks

theorem isBatchProcessed_of_marker {b : BytesN 32} {s : State} (h : marker s b = some true) :
    Returns (isBatchProcessed b) s true s := by
  unfold marker at h
  simp [isBatchProcessed, TypedStore.Store.has, h]

theorem faithful_iff {b : BytesN 32} {o : Except String Receipt × Chain} (h : Marked b o.2) :
    Faithful b o ↔ Honest o := by
  constructor
  · rintro ⟨hp, hr, hq⟩
    exact ⟨fun receipt hok => (hp receipt hok).1, hr, hq⟩
  · rintro ⟨hn, hr, hq⟩
    exact ⟨fun receipt hok =>
      ⟨hn receipt hok, isBatchProcessed_of_marker (h (hn receipt hok))⟩, hr, hq⟩

/-- For every state of the contract and all outcomes of the RPC and the ledger a call is faithful
exactly when its fallbacks and its second round are harmless. -/
theorem notarization_faithful_iff (net : Network) (req : Request) (channel : Except String Address)
    (first second : Round) (s : State) (entries : List (Address × String × String)) :
    Faithful (uuid32 req.batchId)
    (notarizeBatchReceipt net req channel first second ⟨s, entries, []⟩) ↔
      ∀ signer, channel = .ok signer → Harmless net signer req first second ⟨s, entries, []⟩ := by
  cases channel with
  | error text =>
    refine iff_of_true ⟨fun _ h => (by cases h), fun h => (by cases h), quiet_nil⟩ fun signer h =>
      ?_
    cases h
  | ok signer =>
    have hmarked : Marked (uuid32 req.batchId)
        (executeWithSigner net signer req first second ⟨s, entries, []⟩).2 :=
      marked_call fun h => (by cases h)
    rw [notarizeBatchReceipt, faithful_iff hmarked, call_honest_iff quiet_nil]
    exact ⟨fun h signer' he => by cases he; exact h, fun h => h signer rfl⟩

theorem not_faithful_of_unmarked {b : BytesN 32} {o : Except String Receipt × Chain}
    {receipt : Receipt}
    (hok : o.1 = .ok receipt) (hmark : .notarized ∉ o.2.marks) : ¬ Faithful b o :=
  fun h => hmark (h.processed receipt hok).1

theorem ok_of_toOption {o : Except String Receipt} {receipt : Receipt}
    (h : o.toOption = some receipt) : o = .ok receipt := by
  cases o with
  | error text => cases h
  | ok value =>
    cases h
    rfl

/-- A network on which a trap is told as the host tells it. -/
def sampleNetwork : Network := ⟨sampleHost, fun _ => "HostError: Error(WasmVm, InvalidAction)"⟩

def plain : Sending :=
  ⟨[], none, ⟨0, 0⟩, [], some ⟨0, 0⟩, [], none, "hash", ⟨.success, some 7, "{}"⟩⟩

def plainRound : Round := ⟨none, plain, none, plain⟩

def sampleRequest : Request := ⟨"07", "receipt", none⟩

/-- A batch that is already processed: the contract rejects the call, the service writes an entry of
its own instead and returns it as the receipt. -/
theorem rejection_returned :
    let s := after sampleHost State.empty [deployed,
      signedBy admin (.notarizeBatchReceipt admin (uuid32 "07") admin "receipt")]
    let o := notarizeBatchReceipt sampleNetwork sampleRequest (.ok admin) plainRound plainRound
      ⟨s, [], []⟩
    o.1 = .ok ⟨"hash", 1, some 7⟩ ∧ o.2.marks = [.rejected, .entered] ∧
      ¬ Faithful (uuid32 "07") o := by
  intro s o
  have hreturned : o.1.toOption = some ⟨"hash", 1, some 7⟩ ∧ o.2.marks = [.rejected, .entered] := by
    decide +kernel
  have hok : o.1 = .ok ⟨"hash", 1, some 7⟩ := ok_of_toOption hreturned.1
  exact ⟨hok, hreturned.2, not_faithful_of_unmarked hok (by rw [hreturned.2]; decide)⟩

end Livora.Notarizations
