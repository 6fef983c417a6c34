import AstraStorage.Proofs.Integrity
import AstraStorage.Proofs.Transactions
import AstraStorage.Proofs.Isolation
import AstraStorage.Proofs.Superseded
import AstraStorage.Proofs.PostgresMoves
import AstraStorage.Proofs.LeaderTerms
import AstraStorage.Proofs.DirectoryListings
import AstraStorage.Proofs.CleanupRecovery
import AstraStorage.Proofs.CachedNotFound
import AstraStorage.Proofs.CachedReads
import AstraStorage.Proofs.TaskRuns
import AstraStorage.Proofs.Retries
import AstraStorage.Proofs.ConfirmedBytes
import AstraStorage.Proofs.UndoneMoves
import AstraStorage.Proofs.PostgresChunks
import AstraStorage.Proofs.FailedCalls
import AstraStorage.Proofs.ReplicaRecords
import AstraStorage.Proofs.Primaries
import AstraStorage.Proofs.Rollbacks
import AstraStorage.Proofs.PlanTargets
import AstraStorage.Proofs.DownloadOrder
import AstraStorage.Proofs.DownloadFallback
import AstraStorage.Proofs.StoredChunks
import AstraStorage.Proofs.ResentUploads
import AstraStorage.Proofs.Pages
import AstraStorage.Model.CacheConfig
import AstraStorage.Proofs.Expirations
import AstraStorage.Proofs.PoisonMessages
import AstraStorage.Proofs.Names
import AstraStorage.Proofs.ChunksByNode
import AstraStorage.Proofs.StaleReads
import AstraStorage.Proofs.Interleavings
