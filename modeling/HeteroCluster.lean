import HeteroCluster.AcceptedManifest
import HeteroCluster.AdvertisedResources
import HeteroCluster.AffectedJobs
import HeteroCluster.AffectedRoots
import HeteroCluster.BFloat16
import HeteroCluster.BootRecords
import HeteroCluster.BootTracking
import HeteroCluster.Boxes
import HeteroCluster.CPUDevices
import HeteroCluster.CallProgram
import HeteroCluster.CapacityAgreement
import HeteroCluster.CheckpointCodec
import HeteroCluster.CheckpointManifest
import HeteroCluster.CheckpointServer
import HeteroCluster.CheckpointSignals
import HeteroCluster.CircularSlots
import HeteroCluster.ClaimLookup
import HeteroCluster.CleanPaths
import HeteroCluster.CommitEvidence
import HeteroCluster.CommitProtocol
import HeteroCluster.CompatibleCheckpoints
import HeteroCluster.ComputeDriver
import HeteroCluster.ComputeInventory
import HeteroCluster.ConversionBlocks
import HeteroCluster.ConversionStreams
import HeteroCluster.DecimalText
import HeteroCluster.DeviceExclusivity
import HeteroCluster.DeviceOperations
import HeteroCluster.DevicePlugin
import HeteroCluster.DiscoveredDevices
import HeteroCluster.DiscoveredGPUs
import HeteroCluster.EvacuationStable
import HeteroCluster.ExclusiveTable
import HeteroCluster.FailFast
import HeteroCluster.FilePaths
import HeteroCluster.FloatCodes
import HeteroCluster.FloatNumbers
import HeteroCluster.FreshTables
import HeteroCluster.GPUAgreement
import HeteroCluster.GoStrings
import HeteroCluster.GresInit
import HeteroCluster.HardwareHash
import HeteroCluster.HardwareInventory
import HeteroCluster.HetDemand
import HeteroCluster.HostileRing
import HeteroCluster.Hostlist
import HeteroCluster.HostlistBounds
import HeteroCluster.HostlistGrammar
import HeteroCluster.HostlistNames
import HeteroCluster.HostlistRanges
import HeteroCluster.Interleaving
import HeteroCluster.InventoryCells
import HeteroCluster.InventoryPublication
import HeteroCluster.JobActionsOnce
import HeteroCluster.JobEvacuation
import HeteroCluster.JsonReading
import HeteroCluster.JsonText
import HeteroCluster.KeySpaces
import HeteroCluster.KeyedRecords
import HeteroCluster.LatestCheckpoint
import HeteroCluster.LetterCase
import HeteroCluster.LittleEndian
import HeteroCluster.ManifestOrder
import HeteroCluster.ManifestSchema
import HeteroCluster.ManifestTables
import HeteroCluster.NodeClearance
import HeteroCluster.ObjectIdentity
import HeteroCluster.ObjectKeys
import HeteroCluster.ObjectStore
import HeteroCluster.OperatorCalls
import HeteroCluster.OpticalInventory
import HeteroCluster.OwnedNodes
import HeteroCluster.PerCPUMemory
import HeteroCluster.PoolFeatures
import HeteroCluster.ProgramEmbedding
import HeteroCluster.Quantization
import HeteroCluster.QuantizationRoundTrip
import HeteroCluster.QuantizedValues
import HeteroCluster.RankArtifacts
import HeteroCluster.ReadyWorkers
import HeteroCluster.RebootBarrier
import HeteroCluster.RebootRequests
import HeteroCluster.RecoverableInventory
import HeteroCluster.RecoveryEvacuation
import HeteroCluster.RecoveryEvacuationKeeps
import HeteroCluster.RecoveryEvidence
import HeteroCluster.RecoveryIncident
import HeteroCluster.RecoveryIsolation
import HeteroCluster.RecoveryQuiet
import HeteroCluster.RecoveryReconcile
import HeteroCluster.RecoveryReconcileKeeps
import HeteroCluster.RecoveryRuns
import HeteroCluster.RecoverySteps
import HeteroCluster.RecoveryVerifier
import HeteroCluster.RequestTraces
import HeteroCluster.RestoredBytes
import HeteroCluster.Retries
import HeteroCluster.RingCorrect
import HeteroCluster.RingFile
import HeteroCluster.RingInvariant
import HeteroCluster.RingLosses
import HeteroCluster.RingModel
import HeteroCluster.RingNamespace
import HeteroCluster.RingTimeouts
import HeteroCluster.RingWords
import HeteroCluster.RngStates
import HeteroCluster.RoundToEven
import HeteroCluster.RunningTotals
import HeteroCluster.SecondReboot
import HeteroCluster.ServerIsolation
import HeteroCluster.ServerRequests
import HeteroCluster.SlurmConfig
import HeteroCluster.SlurmJob
import HeteroCluster.SortedBy
import HeteroCluster.StateLoss
import HeteroCluster.StoragePaths
import HeteroCluster.StoreAccess
import HeteroCluster.TRESAmounts
import HeteroCluster.TensorTiling
import HeteroCluster.TransactionBudget
import HeteroCluster.TransactionCreation
import HeteroCluster.TransactionFiles
import HeteroCluster.TransactionOwners
import HeteroCluster.TransactionServer
import HeteroCluster.UploadRaces
import HeteroCluster.VerifierClaims
import HeteroCluster.VerifierRetry
import HeteroCluster.WatchdogHealth
import HeteroCluster.WatchdogReboot
import HeteroCluster.WorkerClaims
import HeteroCluster.WorkerCleanup
import HeteroCluster.WorkerDemand
import HeteroCluster.WorkerMatching
import HeteroCluster.WorkerMemory
import HeteroCluster.WorkerPlan
import HeteroCluster.WorkerPlanning
import HeteroCluster.WorkerPods
import HeteroCluster.WorkerReconcile
import HeteroCluster.WorkerSettling
import HeteroCluster.WorkerShapes
