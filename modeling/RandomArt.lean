import RandomArt.Achieving
import RandomArt.Alea
import RandomArt.ArtPalettes
import RandomArt.AwsS3FileStore
import RandomArt.Base32
import RandomArt.Base64Url
import RandomArt.BigintSqrt
import RandomArt.Binary64
import RandomArt.BitWords
import RandomArt.BlendMxN
import RandomArt.BlendTiling
import RandomArt.BlockLayout
import RandomArt.BlockSlices
import RandomArt.BuiltModules
import RandomArt.CallExpression
import RandomArt.ChunkPlan
import RandomArt.Coroutine
import RandomArt.DecimalPlaces
import RandomArt.DecimalText
import RandomArt.DenseWind
import RandomArt.DoubleArithmetic
import RandomArt.DoubleRounding
import RandomArt.DoubleText
import RandomArt.DynamicModuleBlueprint
import RandomArt.Envelope
import RandomArt.EnvelopeAcceptance
import RandomArt.EnvelopeAtomicity
import RandomArt.EnvelopeHandling
import RandomArt.EnvelopeLifecycle
import RandomArt.EnvelopeRoundTrip
import RandomArt.EnvelopeRuns
import RandomArt.ExpressionTree
import RandomArt.FailedParts
import RandomArt.FailedPut
import RandomArt.FailingSteps
import RandomArt.FallibleFold
import RandomArt.FallibleOutcome
import RandomArt.FileSystem
import RandomArt.FindG
import RandomArt.FixStr
import RandomArt.FixedPattern
import RandomArt.FlowProducer
import RandomArt.FormulaEvaluator
import RandomArt.FormulaRange
import RandomArt.FormulaText
import RandomArt.FsBlockstore
import RandomArt.FsBlockstoreInterleaving
import RandomArt.FsBlockstoreRefinement
import RandomArt.GatheringWorker
import RandomArt.GenModelArtist
import RandomArt.GeneratorSearch
import RandomArt.GrownTrees
import RandomArt.IdSeries
import RandomArt.IndexPairs
import RandomArt.IpldRegionMapRepository
import RandomArt.JobQueue
import RandomArt.JsNumber
import RandomArt.KeyedFold
import RandomArt.Looping
import RandomArt.MessageValue
import RandomArt.MillerRabin
import RandomArt.ModularPowers
import RandomArt.MulMod
import RandomArt.MultiplyWithCarry
import RandomArt.NameLanguage
import RandomArt.NewtonRoot
import RandomArt.NumberGrammar
import RandomArt.NumberText
import RandomArt.OrderPairs
import RandomArt.PBufRegionMap
import RandomArt.PMinusOneFactors
import RandomArt.PaintGeometry
import RandomArt.PaintTaskEngine
import RandomArt.PaintedMaps
import RandomArt.PaintingMessages
import RandomArt.PaintingWorker
import RandomArt.Palettes
import RandomArt.PermutationExpander
import RandomArt.Pipeline
import RandomArt.PipelineBuilders
import RandomArt.PipelineCommute
import RandomArt.PipelineExposure
import RandomArt.PipelineNames
import RandomArt.PipelineOrder
import RandomArt.PipelinePresence
import RandomArt.PipelinePruning
import RandomArt.PipelineRun
import RandomArt.PipelineSharing
import RandomArt.PixelBudget
import RandomArt.PixelData
import RandomArt.PixelStringSoundness
import RandomArt.PixelStrings
import RandomArt.PlainObject
import RandomArt.PlotDocuments
import RandomArt.PlotMappingPb
import RandomArt.PlotSlices
import RandomArt.PreciseGrid
import RandomArt.PrimeCandidates
import RandomArt.PrimeGenerator
import RandomArt.PrimitiveRoot
import RandomArt.ProjectGathering
import RandomArt.ProjectRun
import RandomArt.PublicId
import RandomArt.RandomArtCodec
import RandomArt.RandomArtCodecRoundTrip
import RandomArt.RandomArtProvider
import RandomArt.RandomPrimeField
import RandomArt.RectPartition
import RandomArt.RedundantVirtual
import RandomArt.RegionMap
import RandomArt.RegionMapCommit
import RandomArt.RegionMapDraft
import RandomArt.RegionMapLookup
import RandomArt.RegionMapNames
import RandomArt.RegionMapRoundTrip
import RandomArt.RegionMapUtils
import RandomArt.ReleaseGrammar
import RandomArt.ReleaseVersion
import RandomArt.ReplaceAll
import RandomArt.ReturnQueueRouting
import RandomArt.ScatterGather
import RandomArt.SeedEncoding
import RandomArt.SeedHash
import RandomArt.Segments
import RandomArt.SentJobs
import RandomArt.SentProject
import RandomArt.ShortDecimals
import RandomArt.SignedImageUploads
import RandomArt.SizedPixelsString
import RandomArt.SliceWrites
import RandomArt.SpanPartition
import RandomArt.StepIsolation
import RandomArt.StrongProbablePrimes
import RandomArt.SubmissionReturns
import RandomArt.TaskResults
import RandomArt.TermPairs
import RandomArt.TicketArtService
import RandomArt.TraceTree
import RandomArt.TrigramEncoding
import RandomArt.TrigramPipeline
import RandomArt.TrigramSegments
import RandomArt.TrigramStaging
import RandomArt.TrigramWorkerPool
import RandomArt.UniqueIds
import RandomArt.WholeDoubles
import RandomArt.WireFormat
import RandomArt.WorkerReplies
