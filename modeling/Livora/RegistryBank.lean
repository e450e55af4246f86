import Livora.RegistryContract
import Livora.TokenBank

/-! What the contract state says as a token ledger, and the frame relation used
to say which keys an operation leaves alone. The two internal operations and the
minting loops are specified here once, as postings on the ledger. -/

namespace Livora.RegistryBank

open CheckedWords StellarXdr TrappingState TypedStore RegistryStorage RegistryContract TokenBank

def balances : Family DataKey.Value Address where
  key := .balance
  key_injective := fun _ _ h => DataKey.balance.inj h
  value := fun _ v => SWord.val v

def allowances : Family DataKey.Value (Address × Address) where
  key := fun p => .allowance p.1 p.2
  key_injective := fun _ _ h => Prod.ext (DataKey.allowance.inj h).1 (DataKey.allowance.inj h).2
  value := fun _ v => SWord.val v

def nonceEntries : Family DataKey.Value Address where
  key := .nonce
  key_injective := fun _ _ h => DataKey.nonce.inj h
  value := fun _ v => SWord.val v

def balanceOf (s : State) (a : Address) : ℤ := balances.read s.persistent a

def allowanceOf (s : State) (fromAddr spender : Address) : ℤ :=
  allowances.read s.persistent (fromAddr, spender)

def nonceOf (s : State) (a : Address) : ℤ := nonceEntries.read s.persistent a

def supply (s : State) : ℤ := ((s.instanceData.get .totalSupply).map SWord.val).getD 0

noncomputable def bank (s : State) : Bank Address := ⟨balances.values s.persistent, supply s⟩

@[simp] theorem bank_balance (s : State) (a : Address) : (bank s).balance a = balanceOf s a := rfl

@[simp] theorem bank_supply (s : State) : (bank s).supply = supply s := rfl

theorem val_unwrapOr (o : Option I128) : (unwrapOr o 0).val = (o.map SWord.val).getD 0 := by
  cases o <;> rfl

def bankKeys : Set DataKey := {k | k = .totalSupply ∨ ∃ a, k = .balance a}

/-- The states agree on every key outside `K`. -/
structure AgreeOff (K : Set DataKey) (s s' : State) : Prop where
  persistent : ∀ k ∉ K, s'.persistent.get k = s.persistent.get k
  instanceData : ∀ k ∉ K, s'.instanceData.get k = s.instanceData.get k

namespace AgreeOff

variable {K L : Set DataKey} {s t u : State}

theorem refl (K : Set DataKey) (s : State) : AgreeOff K s s := ⟨fun _ _ => rfl, fun _ _ => rfl⟩

theorem mono (hKL : K ⊆ L) (h : AgreeOff K s t) : AgreeOff L s t :=
  ⟨fun k hk => h.persistent k fun hk' => hk (hKL hk'),
   fun k hk => h.instanceData k fun hk' => hk (hKL hk')⟩

theorem trans (h : AgreeOff K s t) (h' : AgreeOff K t u) : AgreeOff K s u :=
  ⟨fun k hk => (h'.persistent k hk).trans (h.persistent k hk),
   fun k hk => (h'.instanceData k hk).trans (h.instanceData k hk)⟩

theorem setPersistent {k : DataKey} {v : k.Value} (hk : k ∈ K) :
    AgreeOff K s (s.putPersistent k v) :=
  ⟨fun _ hk' => Store.get_set_of_ne fun e => hk' (e ▸ hk), fun _ _ => rfl⟩

theorem setInstance {k : DataKey} {v : k.Value} (hk : k ∈ K) :
    AgreeOff K s (s.putInstance k v) :=
  ⟨fun _ _ => rfl, fun _ hk' => Store.get_set_of_ne fun e => hk' (e ▸ hk)⟩

theorem allowanceOf_eq (h : AgreeOff K s t) {a b : Address} (hk : .allowance a b ∉ K) :
    allowanceOf t a b = allowanceOf s a b := by
  simp only [allowanceOf, Family.read, allowances, h.persistent _ hk]

theorem nonceOf_eq (h : AgreeOff K s t) {a : Address} (hk : .nonce a ∉ K) :
    nonceOf t a = nonceOf s a := by
  simp only [nonceOf, Family.read, nonceEntries, h.persistent _ hk]

theorem bank_eq (h : AgreeOff K s t) (hb : ∀ k ∈ bankKeys, k ∉ K) : bank t = bank s := by
  have hbal := balances.values_congr fun a => h.persistent (.balance a) (hb _ (Or.inr ⟨a, rfl⟩))
  have hsup : supply t = supply s := by
    simp only [supply, h.instanceData .totalSupply (hb _ (Or.inl rfl))]
  simp only [bank, hbal, hsup]

end AgreeOff

@[simp] theorem val_balance (s : State) (a : Address) :
    (unwrapOr (s.persistent.get (.balance a)) 0).val = balanceOf s a := val_unwrapOr _

@[simp] theorem val_allowance (s : State) (a b : Address) :
    (unwrapOr (s.persistent.get (.allowance a b)) 0).val = allowanceOf s a b := val_unwrapOr _

@[simp] theorem val_nonce (s : State) (a : Address) :
    (unwrapOr (s.persistent.get (.nonce a)) 0).val = nonceOf s a := val_unwrapOr _

@[simp] theorem val_supply (s : State) :
    (unwrapOr (s.instanceData.get .totalSupply) 0).val = supply s := val_unwrapOr _

@[simp] theorem supply_putPersistent (s : State) (k : DataKey) (v : k.Value) :
    supply (s.putPersistent k v) = supply s := rfl

theorem bank_putBalance (s : State) (a : Address) (v : I128) :
    bank (s.putPersistent (.balance a) v) =
      ⟨(bank s).balance + Finsupp.single a (v.val - balanceOf s a), supply s⟩ :=
  congrArg (Bank.mk · (supply s)) (balances.values_set s.persistent a v)

theorem bank_putSupply (s : State) (v : I128) :
    bank (s.putInstance .totalSupply v) = ⟨(bank s).balance, v.val⟩ := by
  simp [bank, supply]

theorem balanceOf_putBalance (s : State) (a b : Address) (v : I128) :
    balanceOf (s.putPersistent (.balance a) v) b = if b = a then v.val else balanceOf s b :=
  balances.read_set s.persistent a b v

theorem allowanceOf_put (s : State) (a b : Address) (v : I128) :
    allowanceOf (s.putPersistent (.allowance a b) v) a b = v.val := by
  simp [allowanceOf, Family.read, allowances]

theorem nonceOf_put (s : State) (a : Address) (v : I128) :
    nonceOf (s.putPersistent (.nonce a) v) a = v.val := by
  simp [nonceOf, Family.read, nonceEntries]

theorem internalMint_spec {s s' : State} {toAddr : Address} {amount : I128} {u : Unit}
    (h : Returns (internalMint toAddr amount) s u s') :
    bank s' = (bank s).post (.mint toAddr amount.val) ∧ AgreeOff bankKeys s s' := by
  simp [internalMint] at h
  obtain ⟨credited, hcredited, issued, hissued, rfl⟩ := h
  refine ⟨?_, (AgreeOff.setPersistent (Or.inr ⟨toAddr, rfl⟩)).trans
    (AgreeOff.setInstance (Or.inl rfl))⟩
  rw [bank_putSupply, bank_putBalance, hcredited, hissued, add_sub_cancel_left]
  rfl

/-- The checks of a transfer that passes its guards; the debit itself cannot overflow. -/
structure TransferGuards (s : State) (fromAddr toAddr : Address) (amount : I128) : Prop where
  positive : 0 < amount.val
  funded : amount.val ≤ balanceOf s fromAddr
  fits : Fits 128 (balanceOf s toAddr + amount.val)

theorem transferGuards_congr {s t : State} (h : bank t = bank s) {fromAddr toAddr : Address}
    {amount : I128} :
    TransferGuards t fromAddr toAddr amount ↔ TransferGuards s fromAddr toAddr amount := by
  have hb : ∀ a, balanceOf t a = balanceOf s a := fun a => by rw [← bank_balance, h, bank_balance]
  constructor
  · rintro ⟨hpos, hfunded, hfits⟩
    exact ⟨hpos, hb _ ▸ hfunded, hb _ ▸ hfits⟩
  · rintro ⟨hpos, hfunded, hfits⟩
    exact ⟨hpos, (hb _).symm ▸ hfunded, (hb _).symm ▸ hfits⟩

theorem internalTransfer_returns {s s' : State} {fromAddr toAddr : Address} {amount : I128}
    {u : Unit} :
    Returns (internalTransfer fromAddr toAddr amount) s u s' ↔
      0 < amount.val ∧ amount.val ≤ balanceOf s fromAddr ∧
        ∃ debited credited : I128, debited.val = balanceOf s fromAddr - amount.val ∧
          credited.val = balanceOf s toAddr + amount.val ∧
          (s.putPersistent (.balance fromAddr) debited).putPersistent (.balance toAddr) credited =
            s' := by
  simp [internalTransfer, SWord.le_def, SWord.lt_def]

theorem internalTransfer_iff {s : State} {fromAddr toAddr : Address} {amount : I128} :
    (∃ s', Returns (internalTransfer fromAddr toAddr amount) s () s') ↔
      TransferGuards s fromAddr toAddr amount := by
  constructor
  · rintro ⟨s', h⟩
    obtain ⟨hpos, hfunded, _, credited, _, hcredited, _⟩ := internalTransfer_returns.mp h
    exact ⟨hpos, hfunded, hcredited ▸ credited.fits⟩
  · rintro ⟨hpos, hfunded, hfits⟩
    have hsub : Fits 128 (balanceOf s fromAddr - amount.val) := by
      rw [← val_balance] at hfunded ⊢
      exact SWord.fits_sub_of_le hpos.le hfunded
    exact ⟨_, internalTransfer_returns.mpr
      ⟨hpos, hfunded, ⟨_, hsub⟩, ⟨_, hfits⟩, rfl, rfl, rfl⟩⟩

theorem internalTransfer_spec {s s' : State} {fromAddr toAddr : Address} {amount : I128} {u : Unit}
    (h : Returns (internalTransfer fromAddr toAddr amount) s u s') :
    TransferGuards s fromAddr toAddr amount ∧
      bank s' = (bank s).post (.move fromAddr toAddr amount.val) ∧ AgreeOff bankKeys s s' := by
  obtain ⟨hpos, hfunded, debited, credited, hdebited, hcredited, rfl⟩ :=
    internalTransfer_returns.mp h
  refine ⟨⟨hpos, hfunded, hcredited ▸ credited.fits⟩, ?_, ?_⟩
  · have hdebit : debited.val - balanceOf s fromAddr = -amount.val := by
      rw [hdebited]
      ring
    rw [bank_putBalance, bank_putBalance, balanceOf_putBalance, hdebit, hcredited]
    by_cases hself : fromAddr = toAddr
    · -- the second write replaces the first, so the debit is lost
      subst hself
      have hnet : -amount.val + (balanceOf s fromAddr + amount.val - debited.val) = amount.val := by
        rw [hdebited]
        ring
      simp only [Bank.post, if_true, add_assoc, ← Finsupp.single_add, hnet, supply_putPersistent,
        bank_supply]
    · rw [if_neg (Ne.symm hself), add_sub_cancel_left]
      simp only [Bank.post, if_neg hself, Finsupp.single_neg, sub_eq_add_neg, supply_putPersistent,
        bank_supply]
  · exact (AgreeOff.setPersistent (Or.inr ⟨fromAddr, rfl⟩)).trans
      (AgreeOff.setPersistent (Or.inr ⟨toAddr, rfl⟩))

def mints (rs : List (Address × I128)) : List (Posting Address) :=
  rs.map fun r => .mint r.1 r.2.val

theorem onlyMints_mints (rs : List (Address × I128)) : OnlyMints (mints rs) := by
  intro p hp
  obtain ⟨r, _, rfl⟩ := List.mem_map.mp hp
  exact ⟨r.1, r.2.val, rfl⟩

theorem mintEach_spec {rs : List (Address × I128)} {s s' : State} {total total' : I128}
    (h : Returns (mintEach rs total) s total' s') :
    bank s' = (bank s).postAll (mints rs) ∧ AgreeOff bankKeys s s' ∧
      total'.val = total.val + minted (mints rs) := by
  induction rs generalizing s total with
  | nil =>
    obtain ⟨rfl, rfl⟩ := returns_pure.mp h
    exact ⟨rfl, .refl _ _, by simp [mints, minted]⟩
  | cons r rs ih =>
    simp only [mintEach, returns_bind, returns_checked, SWord.checkedAdd_eq_some] at h
    obtain ⟨_, t, hmint, next, _, ⟨hnext, rfl⟩, hrest⟩ := h
    obtain ⟨hbank, hframe⟩ := internalMint_spec hmint
    obtain ⟨hbank', hframe', htotal⟩ := ih hrest
    refine ⟨?_, hframe.trans hframe', ?_⟩
    · rw [hbank', hbank]
      rfl
    · simp only [mints, List.map_cons, minted] at htotal ⊢
      omega

theorem mintHouseholds_spec {perHousehold : I128} {hhs : List Address} {s s' : State} {u : Unit}
    (h : Returns (mintHouseholds perHousehold hhs) s u s') :
    bank s' = (bank s).postAll (mints (hhs.map fun hh => (hh, perHousehold))) ∧
      AgreeOff bankKeys s s' := by
  induction hhs generalizing s with
  | nil =>
    obtain ⟨-, rfl⟩ := returns_pure.mp h
    exact ⟨rfl, .refl _ _⟩
  | cons hh hhs ih =>
    simp only [mintHouseholds, returns_bind] at h
    obtain ⟨_, t, hmint, hrest⟩ := h
    obtain ⟨hbank, hframe⟩ := internalMint_spec hmint
    obtain ⟨hbank', hframe'⟩ := ih hrest
    exact ⟨by rw [hbank', hbank]; rfl, hframe.trans hframe'⟩

end Livora.RegistryBank
