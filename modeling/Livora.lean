import Livora.CheckedWords
import Livora.TypedStore
import Livora.TrappingState
import Livora.TransitionRuns
import Livora.TokenBank
import Livora.StellarXdr
import Livora.RegistryStorage
import Livora.RegistryContract
import Livora.RegistryBank
import Livora.RegistryRewards
import Livora.RegistryCalls
import Livora.RegistryEffects
import Livora.RegistryConservation
import Livora.RegistryConsent
import Livora.RegistryBatches
import Livora.RegistryShares
import Livora.RegistryViews
import Livora.RegistryNonces
import Livora.DoubleRounding
import Livora.DelegatedRedemption
import Livora.EffectPrograms
import Livora.ProgramPools
import Livora.Overtakings
import Livora.RewardStrategies
import Livora.PinVerification
import Livora.VerificationStages
import Livora.VerificationRaces
import Livora.VerificationAtomicity
import Livora.SequencedLedgers
import Livora.JobQueues
import Livora.BackOffice
import Livora.BlockchainJobs
import Livora.Payments
import Livora.OrderStages
import Livora.OrderRaces
import Livora.OrderCompletion
import Livora.DailyLimit
import Livora.RegistryAuthority
import Livora.SequenceManager
import Livora.ChannelCallers
import Livora.StoreBooks
import Livora.WalletBalance
import Livora.CentAmounts
import Livora.BalanceReports
import Livora.StoreRedemptions
import Livora.BalanceStages
import Livora.RedemptionStages
import Livora.RedemptionRaces
import Livora.StoreSettlements
import Livora.SettlementStages
import Livora.SettlementRaces
import Livora.CashOuts
import Livora.CollectionBooks
import Livora.CollectionServices
import Livora.CollectionStages
import Livora.CollectionRaces
import Livora.CollectionCollateral
import Livora.CollectionUniqueness
import Livora.AuctionBids
import Livora.NamedPools
import Livora.BatchBooks
import Livora.RequestPayloads
import Livora.SummedPrograms
import Livora.StoreRefunds
import Livora.RefundStages
import Livora.PromisedJobs
import Livora.RefundRaces
import Livora.ChannelLeases
import Livora.AccountLocks
import Livora.IdempotencyInterceptor
import Livora.IdempotentRuns
import Livora.SharedKeys
import Livora.StockBooks
import Livora.StockAmounts
import Livora.StockMoves
import Livora.CenterBooks
import Livora.StockServices
import Livora.StockStages
import Livora.StockRaces
import Livora.MassBalance
import Livora.TransferRaces
import Livora.CollectionRatings
import Livora.RatingRaces
import Livora.LoginAttempts
import Livora.StageViews
import Livora.LoginRaces
import Livora.PoolAnswers
import Livora.SessionTokens
import Livora.SessionStages
import Livora.SessionLines
import Livora.SessionRotations
import Livora.SessionSweeps
import Livora.CustodyKeys
import Livora.RpcFailover
import Livora.OtpCodes
import Livora.OtpRuns
import Livora.UserCaches
import Livora.UserCacheStages
import Livora.UserCacheRaces
import Livora.WalletHistory
import Livora.HistoryTotals
import Livora.BatchDesk
import Livora.BatchServices
import Livora.BatchOwners
import Livora.BatchWorker
import Livora.BatchStages
import Livora.BatchWeights
import Livora.BatchConsolidations
import Livora.BatchReceptions
import Livora.ConfirmationLoops
import Livora.Submissions
import Livora.Notarizations
import Livora.ArcoCancellations
import Livora.KycReviews
import Livora.DecimalTexts
import Livora.ForestWeeks
import Livora.ForestRewards
import Livora.ForestRaces
import Livora.ComplaintNumbers
import Livora.ComplaintCounters
import Livora.FailoverOrder
import Livora.AuctionFallbacks
import Livora.CollectionListings
import Livora.PendingTimeouts
import Livora.NoShows
import Livora.RoundingOrder
import Livora.DebitBounds
import Livora.AuctionQuotes
import Livora.DeadLetters
import Livora.TextEncodings
import Livora.KeyCiphers
import Livora.FailureWindows
import Livora.AttemptStages
import Livora.PinAttempts
import Livora.ExactDecimals
import Livora.NumberRecords
import Livora.ExactRewards
import Livora.BatchComposites
import Livora.ReputationMeans
import Livora.ReceiptKeys
import Livora.BalanceRounding
import Livora.UnicodeText
import Livora.MaterialCodes
import Livora.TokenEstimates
import Livora.NumberTexts
import Livora.WeightRecords
import Livora.ValueTrees
import Livora.ResponsePasses
import Livora.ReplayedBodies
import Livora.RadixTexts
import Livora.ContentIds
import Livora.DateWeeks
import Livora.NearestFirst
import Livora.TripOrders
import Livora.GatewayLinks
import Livora.BoundedBuffers
import Livora.RedactedTrees
import Livora.AuditLogs
import Livora.TelemetryServices
import Livora.TelemetryRaces
import Livora.OpenBatches
import Livora.AnsweredRuns
import Livora.SettlementPayouts
import Livora.RedemptionPayouts
import Livora.BatchCalls
import Livora.BatchRegistrations
import Livora.BatchLifecycles
import Livora.CallTraces
import Livora.RegistryRegimes
import Livora.RegistryIssues
import Livora.PasswordServices
import Livora.PasswordRequests
import Livora.PasswordLinks
import Livora.PasswordGrounds
import Livora.PushServices
import Livora.PushRequests
import Livora.PushBooks
import Livora.PushAttempts
import Livora.PushDeliveries
import Livora.WebsocketRooms
import Livora.RoomAudiences
import Livora.TimedStores
import Livora.RegistrationServices
import Livora.OtpPrograms
import Livora.RegistrationRequests
import Livora.RegistrationBooks
import Livora.RegistrationGrounds
import Livora.CertificateCalls
import Livora.TransferCertificates
