import RandomArt.FailingSteps
import RandomArt.FileSystem

/-!
# The block store on disk

Blocks are files whose paths are cut from the text of their CIDs. A cache stands before the
disk: it is filled by writing a block and by reading one, and may drop any entry at any time.
-/

namespace RandomArt

open FileSystem Failing

inductive OpenState where
  | closed
  | opening
  | opened
  | closing
  deriving DecidableEq

def OpenState.text : OpenState → String
  | .closed => "closed"
  | .opening => "opening"
  | .opened => "open"
  | .closing => "closing"

/-- The options of a call; the signal, when there is one, has been aborted or not. -/
structure AbortOptions where
  signal : Option Bool

namespace FsBlockstore

inductive Failure where
  | notOpen (openState : OpenState)
  | operationCanceled
  | notFound (cidStr : String)
  | fs (error : FsError)
  deriving DecidableEq

def FsErrorCode : FsError → String
  | .ENOENT => "ENOENT"
  | .ENOTDIR => "ENOTDIR"
  | .EISDIR => "EISDIR"
  | .EEXIST => "EEXIST"

def Failure.message : Failure → String
  | .notOpen openState => openState.text ++ " is not Open"
  | .operationCanceled => "Operation canceled"
  | .notFound cidStr => cidStr ++ " not found!"
  | .fs error => FsErrorCode error

/-- What the store works on. -/
structure Store where
  openState : OpenState
  lruCache : String → Option Content
  disk : Disk

abbrev Storing := Failing Failure Store

/-- Where the store keeps its blocks, and how the text of a CID is made; encoding it in base58
may throw. -/
structure Setup (Cid : Type) where
  rootPath : Path
  toBase58btc : Cid → Option String
  toText : Cid → String

section Paths

/-- The position that an index stands for; negative indices count from the end. -/
def position (length : ℕ) (i : ℤ) : ℕ := if i < 0 then (length + i).toNat else min i.toNat length

def slice (s : String) (start stop : ℤ) : String :=
  String.ofList ((s.toList.take (position s.toList.length stop)).drop
    (position s.toList.length start))

def sliceFrom (s : String) (start : ℤ) : String := slice s start s.toList.length

end Paths

variable {Cid : Type} (fs : Setup Cid)

def fromCidToString (cid : Cid) : String := (fs.toBase58btc cid).getD (fs.toText cid)

def fromCidToPath (keyStr : String) : Path :=
  join fs.rootPath
    [slice keyStr (-6) (-4), slice keyStr (-4) (-2), sliceFrom keyStr (-2), slice keyStr 0 (-6)]

def assertIsOpen (options : Option AbortOptions) : Storing PUnit := do
  let openState := (← get).openState
  if openState ≠ .opened then throw (.notOpen openState)
  if (options.bind AbortOptions.signal) = some true then throw .operationCanceled

/-- A call of the file system that changes the disk. -/
def changing (change : Disk → Except FsError Disk) : Storing PUnit := do
  let store ← get
  let disk ← ofExcept ((change store.disk).mapError .fs)
  set { store with disk }

def cacheSet (cidStr : String) (val : Content) : Storing PUnit :=
  modify fun store => { store with lruCache := Function.update store.lruCache cidStr (some val) }

def cacheDelete (cidStr : String) : Storing PUnit :=
  modify fun store => { store with lruCache := Function.update store.lruCache cidStr none }

/-- The content of the file, or the stale value when it cannot be read. -/
def fetchMethod (cidStr : String) (staleValue : Option Content) (disk : Disk) : Option Content :=
  match disk.readFile (fromCidToPath fs cidStr) with
  | .ok content => some content
  | .error _ => staleValue

/-- The cached value, or else what the fetch method gives, which is then cached. -/
def cacheFetch (cidStr : String) : Storing (Option Content) := do
  let store ← get
  match store.lruCache cidStr with
  | some val => return some val
  | none =>
    let val := fetchMethod fs cidStr none store.disk
    match val with
    | some content => cacheSet cidStr content
    | none => cacheDelete cidStr
    return val

def put (key : Cid) (val : Content) (options : Option AbortOptions) : Storing Cid := do
  assertIsOpen options
  let cidStr := fromCidToString fs key
  let blockPath := fromCidToPath fs cidStr
  changing fun disk => disk.mkdir (dirname blockPath)
  assertIsOpen options
  tryCatch
    (do
      changing fun disk => disk.writeFile blockPath val
      cacheSet cidStr val
      return key)
    fun err => do
      cacheDelete cidStr
      changing fun disk => disk.unlink blockPath
      throw err

def get (key : Cid) (options : Option AbortOptions) : Storing Content := do
  assertIsOpen options
  let cidStr := fromCidToString fs key
  match ← cacheFetch fs cidStr with
  | none => throw (.notFound cidStr)
  | some val => return val

def has (key : Cid) (options : Option AbortOptions) : Storing Bool := do
  assertIsOpen options
  let cidStr := fromCidToString fs key
  let store ← MonadState.get
  if (store.lruCache cidStr).isSome then return true
  match store.disk.stat (fromCidToPath fs cidStr) with
  | .ok _ => return true
  | .error _ => return false

def delete (key : Cid) (options : Option AbortOptions) : Storing PUnit := do
  assertIsOpen options
  let cidStr := fromCidToString fs key
  let blockPath := fromCidToPath fs cidStr
  cacheDelete cidStr
  changing fun disk => disk.unlink blockPath

inductive Call (Cid : Type) where
  | put (key : Cid) (val : Content)
  | get (key : Cid)
  | has (key : Cid)
  | delete (key : Cid)

def Call.key : Call Cid → Cid
  | .put key _ | .get key | .has key | .delete key => key

inductive Reply (Cid : Type) where
  | stored (key : Cid)
  | block (val : Content)
  | present (found : Bool)
  | deleted

def perform (call : Call Cid) (options : Option AbortOptions) : Storing (Reply Cid) :=
  match call with
  | .put key val => do return .stored (← put fs key val options)
  | .get key => do return .block (← get fs key options)
  | .has key => do return .present (← has fs key options)
  | .delete key => do
    delete fs key options
    return .deleted

/-- What happens to an open store: a call that runs to its end, or the cache drops an entry. -/
inductive Event (Cid : Type) where
  | call (call : Call Cid) (options : Option AbortOptions)
  | evict (cidStr : String)

def Store.evict (store : Store) (cidStr : String) : Store :=
  { store with lruCache := Function.update store.lruCache cidStr none }

/-- The outcomes of the calls, one after another, and the store that they leave. -/
def run (store : Store) : List (Event Cid) → List (Except Failure (Reply Cid)) × Store
  | [] => ([], store)
  | .evict cidStr :: events => run (store.evict cidStr) events
  | .call call options :: events =>
    let (outcome, store') := exec (perform fs call options) store
    let (outcomes, store'') := run store' events
    (outcome :: outcomes, store'')

end FsBlockstore

end RandomArt
