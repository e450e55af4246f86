import Livora.OrderRaces

/-! The daily limit of a user: the orders that became COMPLETED within any 24 hours
should not exceed 500 soles. The limit is checked when a session is opened, on the
orders COMPLETED by then and created in the last 24 hours, so it holds along a run
in which no completion finds a recent one that its own check missed. -/

namespace Livora.DailyLimit

open DoubleRounding TransitionRuns EffectPrograms ProgramPools ProgramPools.System
open BackOffice Payments OrderStages OrderRaces
open PinVerification (Failure)

/-! ### Sums over keyed lists -/

theorem sum_le_sum_of_keys {β κ : Type*} {key : β → κ} {val : β → ℕ} {xs ys : List β}
    (hkeys : (xs.map key).Nodup) (h : ∀ x ∈ xs, ∃ y ∈ ys, key y = key x ∧ val y = val x) :
    (xs.map val).sum ≤ (ys.map val).sum := by
  induction xs generalizing ys with
  | nil => simp
  | cons x xs ih =>
    obtain ⟨hx, hxs⟩ := List.nodup_cons.mp hkeys
    obtain ⟨y, hy, hkey, hval⟩ := h x List.mem_cons_self
    obtain ⟨before, after, rfl⟩ := List.append_of_mem hy
    have hrest : (xs.map val).sum ≤ ((before ++ after).map val).sum := by
      refine ih hxs fun z hz => ?_
      obtain ⟨y', hy', hkey', hval'⟩ := h z (List.mem_cons_of_mem x hz)
      refine ⟨y', ?_, hkey', hval'⟩
      rcases List.mem_append.mp hy' with hy' | hy'
      · exact List.mem_append_left _ hy'
      rcases List.mem_cons.mp hy' with rfl | hy'
      · exact absurd (List.mem_map.mpr ⟨z, hz, hkey'.symm.trans hkey⟩) hx
      · exact List.mem_append_right _ hy'
    simp only [List.map_cons, List.sum_cons, List.map_append, List.sum_append] at hrest ⊢
    omega

/-! ### Orders -/

/-- What the limit depends on, and what no update of an order changes. -/
structure Order where
  purchaseNumber : String
  userId : String
  cents : ℕ
  counted : List String

def orderOf (row : PaymentTransaction) : Order :=
  ⟨row.purchaseNumber, row.userId, row.amountPen.cents, row.counted⟩

def orders (w : World) : List Order := w.payments.map orderOf

/-- The order of the user became COMPLETED in the 24 hours from `start` on. -/
def completedWithin (w : World) (user : String) (start : ℕ) (x : Order) : Bool :=
  x.userId == user && w.completions.any fun c =>
    c.1 == x.purchaseNumber && decide (start ≤ c.2) && decide (c.2 ≤ start + day)

/-- What the user spent in the 24 hours from `start` on, in cents. -/
def spent (w : World) (user : String) (start : ℕ) : ℕ :=
  (((orders w).filter (completedWithin w user start)).map Order.cents).sum

/-- No order that the user completed in the last 24 hours was missed by the check of the one being
completed. -/
def NoneMissed (user : String) (w : World) (row : PaymentTransaction) : Prop :=
  ∀ other ∈ w.payments, other.userId = user →
    (∃ c ∈ w.completions, c.1 = other.purchaseNumber ∧ w.now ≤ c.2 + day) →
    other.purchaseNumber = row.purchaseNumber ∨ other.purchaseNumber ∈ row.counted

instance (user : String) (w : World) (row : PaymentTransaction) :
    Decidable (NoneMissed user w row) :=
  inferInstanceAs (Decidable (∀ other ∈ w.payments, _))

def CountedCall (user : String) (w : World) (i : Op) (o : Outcome) : Prop :=
  match i with
  | .completePayment purchaseNumber _ => o.delivery.applied = true →
      w.openPayment purchaseNumber = true → ∀ row ∈ w.payments,
        row.purchaseNumber = purchaseNumber → row.userId = user → NoneMissed user w row
  | _ => True

def Counted (user : String) (c : Race) : RaceEvent → Prop
  | .advance j o => ∀ i, pending c j = some i → CountedCall user c.world i o
  | _ => True

/-- An order, and those its check counted, keep the limit. -/
def Opened (w : World) (x : Order) : Prop :=
  ∃ counted : List Order, x.counted = counted.map Order.purchaseNumber ∧
    (counted.map Order.cents).sum + x.cents ≤ 50000 ∧ ∀ y ∈ counted, y ∈ orders w

structure Limited (user : String) (w : World) (st : ℕ → Option Stage) : Prop where
  keys : ((orders w).map Order.purchaseNumber).Nodup
  known : ∀ c ∈ w.completions, ∃ x ∈ orders w, x.purchaseNumber = c.1
  opened : ∀ x ∈ orders w, Opened w x
  checked : ∀ j s rows, st j = some s → s.checked = some rows → ∀ row ∈ rows, orderOf row ∈ orders w
  within : ∀ start, spent w user start ≤ 50000

variable {user : String} {svc : Service} {w w' : World} {st : ℕ → Option Stage} {j : ℕ}
  {s : Stage} {i : Op} {o : Outcome}

/-! ### What a step does to the orders -/

theorem orders_updatePayment {purchaseNumber : String}
    {f : PaymentTransaction → PaymentTransaction} (hf : ∀ row, orderOf (f row) = orderOf row) :
    orders (w.updatePayment purchaseNumber f) = orders w := by
  unfold orders World.updatePayment
  rw [List.map_map]
  refine List.map_congr_left fun row _ => ?_
  rw [Function.comp_apply]
  split
  · exact hf row
  · rfl

/-- Nothing the limit depends on has changed. -/
structure SameOrders (w w' : World) : Prop where
  orders : orders w' = orders w
  completions : w'.completions = w.completions

theorem Limited.keep (h : Limited user w st) (hsame : SameOrders w w') : Limited user w' st := by
  obtain ⟨horders, hcompletions⟩ := hsame
  constructor
  · rw [horders]
    exact h.keys
  · rw [hcompletions, horders]
    exact h.known
  · intro x hx
    rw [horders] at hx
    obtain ⟨counted, hcounted, hsum, hmem⟩ := h.opened x hx
    exact ⟨counted, hcounted, hsum, fun y hy => horders ▸ hmem y hy⟩
  · rw [horders]
    exact h.checked
  · intro start
    have hwithin : completedWithin w' user start = completedWithin w user start := by
      funext x
      unfold completedWithin
      rw [hcompletions]
    unfold spent
    rw [hwithin, horders]
    exact h.within start

theorem Limited.restage (h : Limited user w st) {t : Option Stage}
    (ht : ∀ s rows, t = some s → s.checked = some rows → ∀ row ∈ rows, orderOf row ∈ orders w) :
    Limited user w (Function.update st j t) := by
  refine ⟨h.keys, h.known, h.opened, fun k s rows hk hrows => ?_, h.within⟩
  by_cases hkj : k = j
  · subst hkj
    rw [Function.update_self] at hk
    exact ht s rows hk hrows
  · rw [Function.update_of_ne hkj] at hk
    exact h.checked k s rows hk hrows

theorem mem_orders {row : PaymentTransaction} (h : row ∈ w.payments) : orderOf row ∈ orders w :=
  List.mem_map_of_mem h

theorem hasPayment_iff {purchaseNumber : String} :
    w.hasPayment purchaseNumber = true ↔ ∃ x ∈ orders w, x.purchaseNumber = purchaseNumber := by
  simp [World.hasPayment, orders, orderOf]

theorem orders_createPayment {row : PaymentTransaction}
    (h : ¬ w.hasPayment row.purchaseNumber = true) :
    orders (w.effect (.createPayment row)) = orders w ++ [orderOf row] := by
  simp [orders, World.effect, h, orderOf]

theorem create_limited {row : PaymentTransaction} (h : Limited user w st) (hj : st j = some s)
    (hallowed : Allowed s (.createPayment row)) :
    Limited user (w.effect (.createPayment row)) st := by
  by_cases hhas : w.hasPayment row.purchaseNumber = true
  · exact h.keep ⟨by simp [orders, World.effect, hhas], rfl⟩
  obtain ⟨rows, hchecked, hopened⟩ := hallowed
  have horders := orders_createPayment hhas
  have hold : ∀ x ∈ orders w, x ∈ orders (w.effect (.createPayment row)) :=
    fun x hx => horders ▸ List.mem_append_left _ hx
  have hnew : ∀ x ∈ orders w, x.purchaseNumber ≠ row.purchaseNumber :=
    fun x hx he => hhas (hasPayment_iff.mpr ⟨x, hx, he⟩)
  constructor
  · rw [horders, List.map_append, List.nodup_append]
    refine ⟨h.keys, List.nodup_singleton _, fun k hk k' hk' => ?_⟩
    obtain ⟨x, hx, rfl⟩ := List.mem_map.mp hk
    obtain rfl := List.mem_singleton.mp hk'
    exact hnew x hx
  · intro c hc
    obtain ⟨x, hx, hkey⟩ := h.known c hc
    exact ⟨x, hold x hx, hkey⟩
  · intro x hx
    rw [horders] at hx
    rcases List.mem_append.mp hx with hx | hx
    · obtain ⟨counted, hcounted, hsum, hmem⟩ := h.opened x hx
      exact ⟨counted, hcounted, hsum, fun y hy => hold y (hmem y hy)⟩
    · obtain rfl := List.mem_singleton.mp hx
      refine ⟨rows.map orderOf, ?_, ?_, fun y hy => ?_⟩
      · rw [List.map_map]
        exact hopened.counted
      · rw [List.map_map]
        exact hopened.within
      · obtain ⟨r, hr, rfl⟩ := List.mem_map.mp hy
        exact hold _ (h.checked j s rows hj hchecked r hr)
  · exact fun k t rows hk hrows r hr => hold _ (h.checked k t rows hk hrows r hr)
  · intro start
    have hfresh : completedWithin w user start (orderOf row) = false := by
      rw [Bool.eq_false_iff]
      intro hwithin
      obtain ⟨c, hc, hkey⟩ := List.any_eq_true.mp (Bool.and_eq_true _ _ ▸ hwithin).2
      obtain ⟨x, hx, hxkey⟩ := h.known c hc
      simp only [Bool.and_eq_true, beq_iff_eq] at hkey
      exact hnew x hx (hxkey.trans hkey.1.1)
    have hsame : spent (w.effect (.createPayment row)) user start = spent w user start := by
      unfold spent
      rw [horders]
      change ((List.filter (completedWithin w user start) _).map Order.cents).sum = _
      rw [List.filter_append, List.filter_cons_of_neg (by simp [hfresh]), List.filter_nil,
        List.append_nil]
    rw [hsame]
    exact h.within start

/-! ### Completing an order -/

theorem completions_complete {purchaseNumber : String} {v : IPNVerificationResult}
    {c : String × ℕ} (hc : c ∈ (w.complete purchaseNumber v).completions) :
    c ∈ w.completions ∨ (c = (purchaseNumber, w.now) ∧ w.openPayment purchaseNumber = true) := by
  simp only [World.complete] at hc
  split at hc
  · exact (List.mem_append.mp hc).imp_right fun hc => ⟨List.mem_singleton.mp hc, ‹_›⟩
  · exact .inl hc

theorem orders_complete {purchaseNumber : String} {v : IPNVerificationResult} :
    orders (w.complete purchaseNumber v) = orders w :=
  orders_updatePayment (f := World.completedBy v) fun _ => rfl

theorem within_complete {purchaseNumber : String} {v : IPNVerificationResult} {start : ℕ}
    {x : Order} (h : completedWithin (w.complete purchaseNumber v) user start x = true) :
    x.userId = user ∧ (completedWithin w user start x = true ∨
      (x.purchaseNumber = purchaseNumber ∧ w.now ≤ start + day ∧
        w.openPayment purchaseNumber = true)) := by
  obtain ⟨huser, hany⟩ := Bool.and_eq_true_iff.mp h
  refine ⟨beq_iff_eq.mp huser, ?_⟩
  obtain ⟨c, hc, hwindow⟩ := List.any_eq_true.mp hany
  rcases completions_complete hc with hc | ⟨rfl, hopen⟩
  · exact .inl (Bool.and_eq_true_iff.mpr ⟨huser, List.any_eq_true.mpr ⟨c, hc, hwindow⟩⟩)
  · simp only [Bool.and_eq_true, beq_iff_eq, decide_eq_true_eq] at hwindow
    exact .inr ⟨hwindow.1.1.symm, hwindow.2, hopen⟩

theorem recent_of_within {start : ℕ} {x : Order} (hto : w.now ≤ start + day)
    (h : completedWithin w user start x = true) :
    ∃ c ∈ w.completions, c.1 = x.purchaseNumber ∧ w.now ≤ c.2 + day := by
  obtain ⟨c, hc, hwindow⟩ := List.any_eq_true.mp (Bool.and_eq_true_iff.mp h).2
  simp only [Bool.and_eq_true, beq_iff_eq, decide_eq_true_eq] at hwindow
  exact ⟨c, hc, hwindow.1.1, by omega⟩

theorem spent_complete {row : PaymentTransaction} {v : IPNVerificationResult} {start : ℕ}
    (h : Limited user w st) (hrow : row ∈ w.payments) (hnone : NoneMissed user w row)
    (hto : w.now ≤ start + day) :
    spent (w.complete row.purchaseNumber v) user start ≤ 50000 := by
  obtain ⟨counted, hcounted, hsum, hmem⟩ := h.opened _ (mem_orders hrow)
  have hunique := List.inj_on_of_nodup_map h.keys
  unfold spent
  rw [orders_complete]
  refine le_trans (@sum_le_sum_of_keys _ _ Order.purchaseNumber _ _ (orderOf row :: counted)
    (h.keys.sublist (List.filter_sublist.map _)) fun x hx => ?_) ?_
  · obtain ⟨hx, hwithin⟩ := List.mem_filter.mp hx
    have hrecent : x.purchaseNumber = row.purchaseNumber ∨ x.purchaseNumber ∈ row.counted := by
      obtain ⟨huser, hbefore | ⟨hkey, -⟩⟩ := within_complete hwithin
      · obtain ⟨other, hother, rfl⟩ := List.mem_map.mp hx
        exact hnone other hother huser (recent_of_within hto hbefore)
      · exact .inl hkey
    rcases hrecent with hkey | hkey
    · obtain rfl := hunique hx (mem_orders hrow) hkey
      exact ⟨_, List.mem_cons_self, rfl, rfl⟩
    · rw [show row.counted = (orderOf row).counted from rfl, hcounted] at hkey
      obtain ⟨y, hy, hykey⟩ := List.mem_map.mp hkey
      obtain rfl := hunique (hmem y hy) hx hykey
      exact ⟨_, List.mem_cons_of_mem _ hy, rfl, rfl⟩
  · rw [List.map_cons, List.sum_cons]
    omega

theorem complete_limited {purchaseNumber : String} {v : IPNVerificationResult}
    (h : Limited user w st)
    (hcounted : w.openPayment purchaseNumber = true → ∀ row ∈ w.payments,
      row.purchaseNumber = purchaseNumber → row.userId = user → NoneMissed user w row) :
    Limited user (w.complete purchaseNumber v) st := by
  constructor
  · rw [orders_complete]
    exact h.keys
  · intro c hc
    rw [orders_complete]
    rcases completions_complete hc with hc | ⟨rfl, hopen⟩
    · exact h.known c hc
    · obtain ⟨row, hrow, hstatus⟩ := List.any_eq_true.mp hopen
      exact ⟨_, mem_orders hrow, beq_iff_eq.mp (Bool.and_eq_true_iff.mp hstatus).1⟩
  · intro x hx
    rw [orders_complete] at hx
    obtain ⟨counted, hcounted, hsum, hmem⟩ := h.opened x hx
    exact ⟨counted, hcounted, hsum, fun y hy => by rw [orders_complete]; exact hmem y hy⟩
  · rw [orders_complete]
    exact h.checked
  · intro start
    by_cases hnew : ∃ x ∈ orders w,
      completedWithin (w.complete purchaseNumber v) user start x = true ∧
        completedWithin w user start x = false
    · obtain ⟨x, hx, hwithin, hbefore⟩ := hnew
      obtain ⟨huser, hw | ⟨hkey, hto, hopen⟩⟩ := within_complete hwithin
      · rw [hw] at hbefore
        cases hbefore
      · obtain ⟨row, hrow, rfl⟩ := List.mem_map.mp hx
        subst hkey
        exact spent_complete h hrow (hcounted hopen row hrow rfl huser) hto
    · refine le_trans ?_ (h.within start)
      unfold spent
      rw [orders_complete]
      refine @sum_le_sum_of_keys _ _ Order.purchaseNumber _ _ _
        (h.keys.sublist (List.filter_sublist.map _)) fun x hx => ⟨x, ?_, rfl, rfl⟩
      obtain ⟨hx, hwithin⟩ := List.mem_filter.mp hx
      refine List.mem_filter.mpr ⟨hx, ?_⟩
      by_contra hbefore
      exact hnew ⟨x, hx, hwithin, Bool.not_eq_true _ ▸ hbefore⟩

/-! ### Runs -/

theorem effect_limited (h : Limited user w st) (hj : st j = some s) (hallowed : Allowed s i)
    (hcounted : CountedCall user w i o) (happlied : o.delivery.applied = true) :
    Limited user (w.effect i) st := by
  cases i with
  | createPayment row => exact create_limited h hj hallowed
  | completePayment purchaseNumber v => exact complete_limited h (hcounted happlied)
  | setTransactionToken purchaseNumber formToken =>
    exact h.keep ⟨orders_updatePayment fun _ => rfl, rfl⟩
  | failPayment purchaseNumber v => exact h.keep ⟨orders_updatePayment fun _ => rfl, rfl⟩
  | setBlockchain purchaseNumber status txHash =>
    exact h.keep ⟨orders_updatePayment fun _ => rfl, rfl⟩
  | _ => exact h.keep ⟨rfl, rfl⟩

theorem after_limited (h : Limited user w st) (hj : st j = some s) (hallowed : Allowed s i)
    (hcounted : CountedCall user w i o) : Limited user (w.after svc i o) st := by
  unfold World.after
  split
  · split <;> exact h.keep ⟨rfl, rfl⟩
  · unfold World.submit
    split <;> exact h.keep ⟨rfl, rfl⟩
  · unfold World.update
    split
    · exact effect_limited h hj hallowed hcounted ‹_›
    · exact h

theorem next_checked {r : Except Failure (Reply i)}
    (h : ∀ userId since, i ≠ .completedSince userId since) :
    (next s i r).checked = s.checked := by
  unfold next
  split
  case h_7 => exact absurd rfl (h _ _)
  all_goals first | rfl | (split <;> rfl)

theorem checked_next {rows : List PaymentTransaction}
    (hrows : (next s i (w.reply svc i o)).checked = some rows) :
    s.checked = some rows ∨ ∀ row ∈ rows, orderOf row ∈ orders (w.after svc i o) := by
  by_cases hsince : ∃ userId since, i = .completedSince userId since
  · obtain ⟨userId, since, rfl⟩ := hsince
    rw [show w.after svc (.completedSince userId since) o = w from ite_self w]
    cases hreply : w.reply svc (.completedSince userId since) o with
    | error e =>
      rw [hreply] at hrows
      exact .inl hrows
    | ok found =>
      rw [hreply] at hrows
      cases hrows
      rw [← reply_done hreply]
      exact .inr fun row hrow => mem_orders (List.mem_filter.mp hrow).1
  · rw [next_checked fun userId since he => hsince ⟨userId, since, he⟩] at hrows
    exact .inl hrows

theorem call_limited (h : Limited user w st) (hj : st j = some s) (hallowed : Allowed s i)
    (hcounted : CountedCall user w i o) :
    Limited user (w.serve svc i o).2
      (Function.update st j (some (next s i (w.serve svc i o).1))) := by
  have hafter : Limited user (w.after svc i o) st := after_limited h hj hallowed hcounted
  refine hafter.restage fun t rows ht hrows => ?_
  cases ht
  rcases checked_next hrows with hold | hnew
  · exact hafter.checked j s rows hj hold
  · exact hnew

theorem sameOrders_outside {d : Outside} (hw : OrderRaces.outside w d = some w') :
    SameOrders w w' := by
  cases d with
  | settle n applies =>
    obtain ⟨ledger, -, rfl⟩ := Option.map_eq_some_iff.mp hw
    exact ⟨rfl, rfl⟩
  | enqueue data attempts =>
    simp only [OrderRaces.outside] at hw
    split at hw
    · cases hw
      exact ⟨rfl, rfl⟩
    · cases hw
  | _ =>
    cases hw
    exact ⟨rfl, rfl⟩

/-- The amounts of the user's orders that became COMPLETED in the 24 hours from `start` on. -/
def completedAmounts (w : World) (user : String) (start : ℕ) : List ℚ :=
  (w.payments.filter fun row => completedWithin w user start (orderOf row)).map fun row =>
    row.amountPen.value

theorem sum_completedAmounts (w : World) (user : String) (start : ℕ) :
    (completedAmounts w user start).sum = spent w user start / 100 := by
  unfold completedAmounts spent orders
  rw [sum_value, List.filter_map, List.map_map]
  rfl

/-- In every run of completions that missed no recent order, the orders of a user COMPLETED within
any 24 hours amount to at most 500 soles. -/
theorem daily_limit_kept {es : List RaceEvent} {c : Race} (hpayments : w.payments = [])
    (hcompletions : w.completions = [])
    (hcounted : Along (system svc).step (Counted user) (quiescent w) es)
    (hrun : run (system svc).step (quiescent w) es = some c) (start : ℕ) :
    (completedAmounts c.world user start).sum ≤ 500 := by
  have hlimited : Limited user c.world (stages c) := by
    refine run_stages (S := system svc) (I := Limited user)
      (fun caller => keeping_program svc caller) ?_ ?_ ?_ ?_ ?_ ?_ hcounted hrun
    · intro w st j h _
      refine h.restage fun s rows hs hrows => ?_
      cases hs
      cases hrows
    · exact fun c j o s i h hj hi hallowed hC => call_limited h hj hallowed (hC i hi)
    · exact fun c j h _ => h.restage fun s rows hs => by cases hs
    · exact fun c d w h _ hw => h.keep (sameOrders_outside hw)
    · exact fun j t ht => by cases ht
    · have hnone : orders w = [] := by rw [orders, hpayments]; rfl
      constructor
      · simp [quiescent, hnone]
      · simp [quiescent, hcompletions]
      · simp [quiescent, hnone]
      · exact fun j s rows hj => by cases hj
      · simp [quiescent, spent, hnone]
  rw [sum_completedAmounts]
  have hwithin := hlimited.within start
  have hcast : (spent c.world user start : ℚ) ≤ 50000 := by exact_mod_cast hwithin
  linarith

/-- `Counted` as a test. -/
def counted (user : String) (c : Race) : RaceEvent → Bool
  | .advance j o => match pending c j with
    | some (.completePayment purchaseNumber _) =>
      !o.delivery.applied || !c.world.openPayment purchaseNumber ||
        c.world.payments.all fun row => row.purchaseNumber != purchaseNumber ||
          row.userId != user || decide (NoneMissed user c.world row)
    | _ => true
  | _ => true

theorem counted_of_test {c : Race} {e : RaceEvent} (h : counted user c e = true) :
    Counted user c e := by
  cases e with
  | advance j o =>
    intro i hi
    unfold CountedCall
    simp only [counted, hi] at h
    split
    · intro happlied hopen row hrow hkey huser
      simp only [happlied, hopen, Bool.not_true, Bool.false_or, List.all_eq_true] at h
      simpa [hkey, huser] using h row hrow
    · trivial
  | _ => trivial

theorem threeHundred_lt : 300 < 2 ^ 53 := by norm_num

theorem twoHundred_lt : 200 < 2 ^ 53 := by norm_num

def session (j : ℕ) (amount : Double) : List RaceEvent :=
  .start j (.createSession "user" ⟨some amount, none⟩) :: answers j (List.replicate 7 .done)

def pay (j : ℕ) (orderId : String) : List RaceEvent :=
  .start j (.processIzipayIpn
    ⟨some (.object ⟨some ⟨some orderId, none⟩, none, some "PAID", []⟩), some "signed", none⟩) ::
      answers j (List.replicate 5 .done)

def emptyWorld : World := { sampleWorld [] with payments := [] }

def oneByOne : List RaceEvent :=
  session 0 (.ofNat 300 threeHundred_lt) ++ pay 1 "ECO-0-USER" ++ .outside (.tick 1) ::
    session 2 (.ofNat 200 twoHundred_lt) ++ pay 3 "ECO-1-USER"

theorem daily_limit_kept_oneByOne : ∃ c,
    run (system sampleService).step (quiescent emptyWorld) oneByOne = some c ∧
      (completedAmounts c.world "user" 0).sum ≤ 500 := by
  obtain ⟨c, hc⟩ := Option.isSome_iff_exists.mp (show (run (system sampleService).step
    (quiescent emptyWorld) oneByOne).isSome = true by decide +kernel)
  refine ⟨c, hc, daily_limit_kept rfl rfl ?_ hc 0⟩
  exact along_mono (fun _ _ h => counted_of_test h) (by decide +kernel)

def bothOpen : List RaceEvent :=
  session 0 (.ofNat 300 threeHundred_lt) ++ .outside (.tick 1) ::
    session 1 (.ofNat 300 threeHundred_lt) ++ pay 2 "ECO-0-USER" ++ pay 3 "ECO-1-USER"

theorem bothOpen_exceeds : ∃ c,
    run (system sampleService).step (quiescent emptyWorld) bothOpen = some c ∧
      500 < (completedAmounts c.world "user" 0).sum := by
  have hsum : (run (system sampleService).step (quiescent emptyWorld) bothOpen).map
      (fun c => decide (500 < (completedAmounts c.world "user" 0).sum)) = some true := by
    decide +kernel
  obtain ⟨c, hc, htrue⟩ := Option.map_eq_some_iff.mp hsum
  exact ⟨c, hc, of_decide_eq_true htrue⟩

end Livora.DailyLimit
