import RandomArt.JsNumber
import RandomArt.PaintingMessages
import RandomArt.PlainObject

/-!
# Results of painting tasks

What stagers report about a task, what the gathering workers pass on, and the manifest of a
project.
-/

namespace RandomArt

inductive OutcomeType where
  | ok
  | ignored
  | semanticError
  | fatalError
  | outOfRetries
  deriving DecidableEq

structure S3BucketAndKey where
  bucket : String
  key : String
  deriving DecidableEq

/-- The report of a local, an S3 or a dual stager, as far as it is read. -/
structure StagingReport where
  primaryPath : Option String
  primaryObject : Option S3BucketAndKey
  fileSizeKb : JsNumber
  deriving DecidableEq

structure TaskResultRecord where
  outcomeType : OutcomeType
  reportIfCompleted : Option StagingReport
  errorIfFailed : Option String
  deriving DecidableEq

structure GatherPaintedPartsResult (Domain : Type) where
  taskId : String
  projectId : Option String
  result : TaskResultRecord
  domainExtension : Option Domain
  regionMapName : Option String

structure StagedFileRef where
  path : Option String
  s3 : Option S3BucketAndKey
  fileSizeKb : JsNumber
  deriving DecidableEq

structure ProjectManifestEntry (Domain : Type) where
  taskId : String
  outcomeType : OutcomeType
  domainExtension : Option Domain
  regionMapName : Option String
  stagedFile : Option StagedFileRef
  errorIfFailed : Option String

structure TaskCounters where
  totalTaskCount : ℕ
  numCompleted : ℕ
  numStaged : ℕ
  numCached : ℕ
  numIgnored : ℕ
  numFatalErrors : ℕ
  numSemanticErrors : ℕ
  numRetryFailures : ℕ
  deriving DecidableEq

structure ProjectManifest (Domain ProjectDomain : Type) where
  projectId : String
  generatedAt : String
  counters : TaskCounters
  projectDomain : ProjectDomain
  tasks : List (ProjectManifestEntry Domain)

structure GatherProjectTasksResult where
  projectId : String
  resultsByTask : PlainObject TaskResultRecord
  resultsByGroup : PlainObject (List TaskResultRecord)
  counters : TaskCounters

end RandomArt
