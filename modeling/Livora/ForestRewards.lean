import Livora.CollectionBooks
import Livora.CustodyKeys
import Livora.ForestWeeks
import Livora.StoreBooks

/-! `GamificationService`: the six quests of a household's week, read off its requests and
redemptions, and the rewards of the third and the fourth stage. A reward is a transfer, and the
transfers are read before it is written, in a call of its own. -/

namespace Livora.ForestRewards

open DoubleRounding EffectPrograms EffectPrograms.Action RewardStrategies ForestWeeks
open BackOffice (Role)
open CollectionBooks (KycStatus)
open CustodyKeys (includes)
open PinVerification (Delivery RequestStatus truthy)
open SequenceManager (trim)
open StoreBooks (RedemptionStatus)

/-! ### The tables -/

structure User where
  id : String
  role : Role
  kycStatus : KycStatus
  walletAddress : Option String
deriving DecidableEq

structure CollectionRequest where
  householdId : String
  createdAt : ℤ
  status : RequestStatus
  rating : Option ℕ
  actualWeights : Option NumberRecord
  itemsEstimated : NumberRecord
deriving DecidableEq

structure RedemptionTransaction where
  userId : Option String
  status : RedemptionStatus
  createdAt : ℤ
deriving DecidableEq

inductive RewardStage where
  | stage3
  | stage4
deriving DecidableEq

def RewardStage.name : RewardStage → String
  | .stage3 => "STAGE_3"
  | .stage4 => "STAGE_4"

structure Reward where
  stage : RewardStage
  weekKey : String
deriving DecidableEq

structure WalletTransfer where
  senderUserId : String
  receiverUserId : Option String
  fromAddress : String
  toAddress : String
  amount : ℚ
  note : Option String
  status : String
  /-- Kept for statements only; none for a transfer that no claim has recorded. -/
  reward : Option Reward
deriving DecidableEq

inductive Failure where
  | notFound (message : String)
  | forbidden (message : String)
  | badRequest (message : String)
  /-- With `error: 'KYC_REQUIRED'`. -/
  | kycRequired (message : String)
  /-- Whatever a call outside threw. -/
  | outside
deriving DecidableEq

/-! ### The calls -/

inductive Op where
  | findUser (id : String)
  /-- `new Date()` -/
  | clock
  | weeklyRequests (householdId : String) (gte lte : ℤ)
  | weeklyRedemptions (userId : String) (gte lte : ℤ)
  | previousClaims (receiverUserId : String)
  | findAdmin
  | createTransfer (data : WalletTransfer)

abbrev Reply : Op → Type
  | .findUser _ => Option User
  | .clock => ℕ
  | .weeklyRequests _ _ _ => List CollectionRequest
  | .weeklyRedemptions _ _ _ => List RedemptionTransaction
  | .previousClaims _ => List WalletTransfer
  | .findAdmin => Option User
  | .createTransfer _ => String

abbrev Work (α : Type) := Action Op Reply Failure α

def call (i : Op) : Work (Reply i) := perform i

structure World where
  now : ℕ
  users : List User
  requests : List CollectionRequest
  redemptions : List RedemptionTransaction
  transfers : List WalletTransfer

/-- How an answer arrives, and the identifier of a row that is created. -/
structure Outcome where
  delivery : Delivery
  transferId : String

namespace World

def weeklyRequests (w : World) (householdId : String) (gte lte : ℤ) : List CollectionRequest :=
  w.requests.filter fun r => r.householdId = householdId ∧ gte ≤ r.createdAt ∧ r.createdAt ≤ lte

def weeklyRedemptions (w : World) (userId : String) (gte lte : ℤ) : List RedemptionTransaction :=
  w.redemptions.filter fun r =>
    r.userId = some userId ∧ r.status = .completed ∧ gte ≤ r.createdAt ∧ r.createdAt ≤ lte

/-- `{ startsWith: 'FOREST_' }` -/
def isForest (note : Option String) : Bool :=
  note.any fun text => "FOREST_".toList.isPrefixOf text.toList

def previousClaims (w : World) (receiverUserId : String) : List WalletTransfer :=
  w.transfers.filter fun t =>
    t.receiverUserId = some receiverUserId ∧ t.status = "COMPLETED" ∧ isForest t.note = true

def after (w : World) (i : Op) (d : Delivery) : World :=
  match i with
  | .createTransfer data => if d.applied then { w with transfers := w.transfers ++ [data] } else w
  | _ => w

def reply (w : World) (i : Op) (o : Outcome) : Except Failure (Reply i) :=
  match i with
  | .findUser id => o.delivery.answer .outside (w.users.find? fun u => u.id = id)
  | .clock => .ok w.now
  | .weeklyRequests householdId gte lte =>
    o.delivery.answer .outside (w.weeklyRequests householdId gte lte)
  | .weeklyRedemptions userId gte lte =>
    o.delivery.answer .outside (w.weeklyRedemptions userId gte lte)
  | .previousClaims receiverUserId => o.delivery.answer .outside (w.previousClaims receiverUserId)
  | .findAdmin => o.delivery.answer .outside (w.users.find? fun u => u.role = .admin)
  | .createTransfer _ => o.delivery.answer .outside o.transferId

def serve (w : World) (i : Op) (o : Outcome) : Except Failure (Reply i) × World :=
  (w.reply i o, w.after i o.delivery)

end World

/-! ### The quests -/

/-- The clock's zone, and `toUpperCase` of a text. -/
structure Service where
  zone : Zone
  toUpperCase : String → String

structure WeeklyQuestResult where
  id : String
  title : String
  description : String
  isCompleted : Bool
  progressLabel : String
  progressPercent : ℚ

def weights (r : CollectionRequest) : NumberRecord :=
  let actual := r.actualWeights.getD []
  if actual.isEmpty then r.itemsEstimated else actual

def weightOf (r : CollectionRequest) : ℚ :=
  (weights r).foldl (fun sum entry => fl (sum + entry.2.val)) 0

def weeklyKg (completed : List CollectionRequest) : ℚ :=
  completed.foldl (fun kg r => fl (kg + weightOf r)) 0

def materialCategories (svc : Service) (completed : List CollectionRequest) : List (List Char) :=
  (completed.flatMap fun r => (weights r).map fun entry =>
    trim (svc.toUpperCase entry.1).toList).dedup

def hasHighImpact (categories : List (List Char)) : Bool :=
  categories.any fun m => ["VIDRIO", "ALUMINIO", "METAL", "LATA"].any fun part =>
    includes m part.toList

/-- `x.toFixed(1)` of a number that is not negative. -/
def toFixed1 (x : ℚ) : String :=
  let tenths := (round (x * 10)).toNat
  toString (tenths / 10) ++ "." ++ toString (tenths % 10)

def whole (done : Bool) : ℚ := if done then 1 else 0

/-- `Math.min(1.0, x / y)` -/
def ratio (x y : ℚ) : ℚ := min 1 (fl (x / y))

def quests (svc : Service) (weeklyRequests : List CollectionRequest)
    (weeklyRedemptions : List RedemptionTransaction) : List WeeklyQuestResult :=
  let completed := weeklyRequests.filter fun r => r.status = .completed
  let completedCount := completed.length
  let topRated := (completed.filter fun r => 5 ≤ r.rating.getD 5).length
  let kg := weeklyKg completed
  let categories := materialCategories svc completed
  let matCount := categories.length
  let highImpact := hasHighImpact categories
  let redemptionsCount := weeklyRedemptions.length
  [⟨"quest_1_completed_batch", "Entrega Real Verificada",
      "Completa al menos 1 entrega formal con pesaje del recolector.", decide (1 ≤ completedCount),
      toString completedCount ++ " / 1 entrega", whole (decide (1 ≤ completedCount))⟩,
    ⟨"quest_2_clean_delivery", "Entrega Impecable",
      "Lote separado y entregado con máxima valoración o sin observaciones.", decide (1 ≤ topRated),
      toString topRated ++ " / 1 entrega", whole (decide (1 ≤ topRated))⟩,
    ⟨"quest_3_volume", "Volumen de Impacto (≥ 5 kg)",
      "Alcanza al menos 5.0 kg pesados acumulados durante la semana.", decide (5 ≤ kg),
      toFixed1 kg ++ " / 5.0 kg", ratio kg 5⟩,
    ⟨"quest_4_multi_material", "Separación Multimaterial",
      "Entrega al menos 2 materiales distintos valorizables (ej. Plástico y Cartón).",
        decide (2 ≤ matCount),
      toString matCount ++ " / 2 tipos", ratio matCount 2⟩,
    ⟨"quest_5_high_impact_material", "Material de Alto Impacto",
      "Incluye al menos un lote con metales (aluminio) o vidrio reciclado.", highImpact,
      if highImpact then "1 / 1 cumplido" else "0 / 1 cumplido", whole highImpact⟩,
    ⟨"quest_6_store_redemption", "Consumo en Comercio Aliado",
      "Realiza al menos 1 canje o compra utilizando tokens LIVO en una tienda física.",
      decide (1 ≤ redemptionsCount), toString redemptionsCount ++ " / 1 canje",
      whole (decide (1 ≤ redemptionsCount))⟩]

def completedQuests (svc : Service) (weeklyRequests : List CollectionRequest)
    (weeklyRedemptions : List RedemptionTransaction) : ℕ :=
  ((quests svc weeklyRequests weeklyRedemptions).filter WeeklyQuestResult.isCompleted).length

structure Stage where
  stage : ℕ
  stageTitle : String
  stageSubtitle : String

def stageOf (completedQuestsCount : ℕ) : Stage :=
  if completedQuestsCount < 2 then
    ⟨1, "Semilla Brotando", "Siembra tu esfuerzo completando tus primeras misiones."⟩
  else if completedQuestsCount < 4 then
    ⟨2, "Brote con Tallo", "Tu hábito está echando raíces. Avanza hacia el árbol joven."⟩
  else if completedQuestsCount < 6 then
    ⟨3, "Árbol Joven Floreciendo",
      "¡Recompensa intermedia desbloqueada (+0.50 LIVO)! A 2 pasos del Árbol Dorado."⟩
  else
    ⟨4, "Gran Árbol Dorado Frondoso",
      "¡Semana Perfecta! Corona dorada y máximo honor en tu Arboleda (+1.00 LIVO extra)."⟩

/-! ### The state of a week -/

structure WeeklyTreeState extends Stage where
  quests : List WeeklyQuestResult
  completedQuestsCount : ℕ
  progressPercent : ℚ
  claimedStage3Reward : Bool
  claimedStage4Reward : Bool
  daysLeftInWeek : ℤ
  weekLabel : String
  weekKey : String
  kycStatus : KycStatus
  canClaimStage3 : Bool
  canClaimStage4 : Bool

def correlation (stage : RewardStage) (weekKey : String) : String :=
  "FOREST_" ++ stage.name ++ "_" ++ weekKey

/-- `previousClaims.some((p) => p.note === correlation)` -/
def claimed (previousClaims : List WalletTransfer) (stage : RewardStage)
    (weekKey : String) : Bool :=
  previousClaims.any fun p => p.note == some (correlation stage weekKey)

def treeState (svc : Service) (user : User) (now : ℕ) (weeklyRequests : List CollectionRequest)
    (weeklyRedemptions : List RedemptionTransaction) (previousClaims : List WalletTransfer) :
    WeeklyTreeState :=
  let completedQuestsCount := completedQuests svc weeklyRequests weeklyRedemptions
  let stage := stageOf completedQuestsCount
  let weekKey := getWeekKey svc.zone now
  let claimedStage3 := claimed previousClaims .stage3 weekKey
  let claimedStage4 := claimed previousClaims .stage4 weekKey
  { stage with
    quests := quests svc weeklyRequests weeklyRedemptions
    completedQuestsCount := completedQuestsCount
    progressPercent := ratio completedQuestsCount 6
    claimedStage3Reward := claimedStage3
    claimedStage4Reward := claimedStage4
    daysLeftInWeek := max 1 ((getEndOfWeek svc.zone now - now + msPerDay - 1) / msPerDay)
    weekLabel := getWeekLabel svc.zone now
    weekKey := weekKey
    kycStatus := user.kycStatus
    canClaimStage3 := decide (3 ≤ stage.stage) && !claimedStage3
    canClaimStage4 := decide (4 ≤ stage.stage) && !claimedStage4 }

def readWeek (svc : Service) (user : User) (userId : String) : Work WeeklyTreeState := do
  let now ← call .clock
  let startOfWeek := getStartOfWeek svc.zone now
  let endOfWeek := getEndOfWeek svc.zone now
  let weeklyRequests ← call (.weeklyRequests userId startOfWeek endOfWeek)
  let weeklyRedemptions ← call (.weeklyRedemptions userId startOfWeek endOfWeek)
  let previousClaims ← call (.previousClaims userId)
  pure (treeState svc user now weeklyRequests weeklyRedemptions previousClaims)

def getWeeklyForestState (svc : Service) (userId : String) : Work WeeklyTreeState := do
  match ← call (.findUser userId) with
  | none => throw (.notFound "Usuario no encontrado")
  | some user =>
    if user.role = .hogar then readWeek svc user userId
    else throw (.forbidden "El ecosistema Mi Bosque está reservado exclusivamente para cuentas de Hogar.")

/-! ### The rewards -/

structure ClaimResult where
  status : String
  message : String
  rewardAmount : ℚ
  stage : RewardStage
  transferId : String
  weekKey : String

def rewardAmount : RewardStage → ℚ
  | .stage3 => 1 / 2
  | .stage4 => 1

def rewardText : RewardStage → String
  | .stage3 => "0.50"
  | .stage4 => "1.00"

def refusal (state : WeeklyTreeState) : RewardStage → Option String
  | .stage3 =>
    if state.stage < 3 then some "Aún no has completado las 4 misiones necesarias para la Etapa 3."
    else if state.claimedStage3Reward then some "La recompensa de Etapa 3 para esta semana ya fue reclamada."
    else none
  | .stage4 =>
    if state.stage < 4 then
      some "Aún no has completado las 6 misiones requeridas para el Árbol Dorado (Etapa 4)."
    else if state.claimedStage4Reward then some "La recompensa de Etapa 4 para esta semana ya fue reclamada."
    else none

def systemWallet : String := "GA3LZ7ROA3YAYOY52J5TDLDDMDADCCZ3CV6CXVQE4SUQGCAB732QXGEB"

def rewardTransfer (userId : String) (user : User) (systemAdmin : Option User) (stage : RewardStage)
    (weekKey : String) : WalletTransfer where
  senderUserId := (systemAdmin.map User.id).getD userId
  receiverUserId := some userId
  fromAddress := (truthy (systemAdmin.bind User.walletAddress)).getD systemWallet
  toAddress := (truthy user.walletAddress).getD systemWallet
  amount := rewardAmount stage
  note := some (correlation stage weekKey)
  status := "COMPLETED"
  reward := some ⟨stage, weekKey⟩

def credit (userId : String) (user : User) (stage : RewardStage) (state : WeeklyTreeState) :
    Work ClaimResult := do
  let systemAdmin ← call .findAdmin
  let transferId ← call
    (.createTransfer (rewardTransfer userId user systemAdmin stage state.weekKey))
  pure ⟨"SUCCESS",
    "¡Felicitaciones! Has recibido +" ++ rewardText stage ++ " LIVO por tu compromiso ambiental.",
    rewardAmount stage, stage, transferId, state.weekKey⟩

def claimFor (svc : Service) (userId : String) (user : User) (stage : RewardStage) :
    Work ClaimResult := do
  let state ← getWeeklyForestState svc userId
  match refusal state stage with
  | some message => throw (.badRequest message)
  | none => credit userId user stage state

def claimWeeklyReward (svc : Service) (userId : String) (stage : RewardStage) :
    Work ClaimResult := do
  match ← call (.findUser userId) with
  | none => throw (.notFound "Usuario no encontrado")
  | some user =>
    if user.role ≠ .hogar then
      throw (.forbidden "Solo cuentas con rol HOGAR pueden reclamar recompensas de Mi Bosque.")
    else if user.kycStatus ≠ .approved then
      throw (.kycRequired
        ("Para reclamar y retirar tus tokens LIVO, tu identidad debe estar validada " ++
        "conforme a ley. Tus recompensas permanecerán reservadas."))
    else claimFor svc userId user stage

/-! ### What a claim needs -/

/-- The quests that a stage takes. -/
def minQuests : RewardStage → ℕ
  | .stage3 => 4
  | .stage4 => 6

theorem stageOf_ge (n : ℕ) : (3 ≤ (stageOf n).stage ↔ 4 ≤ n) ∧ (4 ≤ (stageOf n).stage ↔ 6 ≤ n) := by
  unfold stageOf
  constructor <;> split_ifs <;> simp <;> omega

theorem not_refused {p q : Prop} [Decidable p] [Decidable q] {a b : String}
    (h : (if p then some a else if q then some b else none) = none) : ¬ p ∧ ¬ q := by
  split at h
  · cases h
  · rename_i hp
    split at h
    · cases h
    · rename_i hq
      exact ⟨hp, hq⟩

theorem refusal_none {svc : Service} {user : User} {now : ℕ} {requests : List CollectionRequest}
    {redemptions : List RedemptionTransaction} {claims : List WalletTransfer} {stage : RewardStage}
    (h : refusal (treeState svc user now requests redemptions claims) stage = none) :
    minQuests stage ≤ completedQuests svc requests redemptions ∧
      ∀ p ∈ claims, p.note ≠ some (correlation stage (getWeekKey svc.zone now)) := by
  have hstages := stageOf_ge (completedQuests svc requests redemptions)
  have hnotes {s : RewardStage} (hs : claimed claims s (getWeekKey svc.zone now) = false) :
      ∀ p ∈ claims, p.note ≠ some (correlation s (getWeekKey svc.zone now)) := by
    intro p hp hnote
    have hclaimed : claimed claims s (getWeekKey svc.zone now) = true :=
      List.any_eq_true.mpr ⟨p, hp, beq_iff_eq.mpr hnote⟩
    rw [hs] at hclaimed
    cases hclaimed
  cases stage with
  | stage3 =>
    obtain ⟨hlow, hclaimed⟩ := not_refused h
    exact ⟨hstages.1.mp (not_lt.mp hlow), hnotes (Bool.eq_false_iff.mpr hclaimed)⟩
  | stage4 =>
    obtain ⟨hlow, hclaimed⟩ := not_refused h
    exact ⟨hstages.2.mp (not_lt.mp hlow), hnotes (Bool.eq_false_iff.mpr hclaimed)⟩

end Livora.ForestRewards
