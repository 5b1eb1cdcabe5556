import NftData.Dedup.Metadata.SamplerRuns
import NftData.Dedup.Metadata.SamplerTermination
import NftData.Analysis2.Dedup.Candidates
import NftData.Analysis2.Seed.NftAgreement
import NftData.Analysis2.Enrich.CollectionAssets
import NftData.Analysis2.Reporting.EvidenceSurvival
import NftData.Analysis2.Parquet.Pass1Agreement
import NftData.Ethereum.LogScannerProgress
import NftData.Ethereum.MetadataFetcherBlacklist
import NftData.Solana.TxScannerProgress
import NftData.Analysis.Pipeline.CandidateProgress
import NftData.Analysis.Dedup.Metadata
import NftData.Analysis.Dedup.Name
import NftData.Dedup.AnchorLimit
import NftData.Dedup.Direct.Build
import NftData.Dedup.Uri.Reference
import NftData.Analysis.Reporting.AggregateSnapshot
import NftData.TopContracts.Batch.Guarantees
import NftData.Dedup.Metadata.TaskPermutation
import NftData.Dedup.Metadata.CandidatePostings
import NftData.Dedup.Metadata.TriangularIndex
import NftData.Dedup.Radix
import NftData.Dedup.Direct.SharedAnchor
import NftData.Dedup.Uri.CompactWide
import NftData.Dedup.Metadata.CanonicalLeaks
import NftData.Dedup.Metadata.ThresholdDecision
import NftData.Analysis2.Analysis.TarjanRuns
import NftData.Analysis2.Analysis.LayeredPaths
import NftData.Analysis2.Enrich.MintPayment
import NftData.Analysis2.Analysis.ValueFlow
import NftData.Analysis2.Analysis.Lifecycle
import NftData.Analysis2.Analysis.GasVariations
import NftData.Dedup.Sampling.SampledImages
import NftData.Ethereum.BatchAttribution
import NftData.Ethereum.MetadataBackfill
import NftData.Ethereum.ImageUri
import NftData.Analysis2.Reporting.DuplicateScale
import NftData.Analysis2.Enrich.NativeFlows
import NftData.Analysis2.Enrich.Redaction
import NftData.Analysis2.Enrich.TransactionRuns
import NftData.Analysis2.Seed.ContentUrl
import NftData.Analysis2.Enrich.Controllers
import NftData.Analysis.Pipeline.CpuExecutor
import NftData.Analysis.Resident.TokenOrder
import NftData.TopContracts.Store.RecallDocuments
import NftData.TopContracts.Analysis.WashTrading
import NftData.Solana.Decoders
