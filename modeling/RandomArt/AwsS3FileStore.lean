import Mathlib.Data.List.Infix
import Mathlib.Data.Set.Basic
import Mathlib.Logic.Function.Basic
import Mathlib.Logic.Pairwise

/-!
# File stores in a bucket

A file store sends one command to the storage service for each of its operations and turns the
answer into its own. Its keys are its paths behind a prefix. Several stores may use one bucket,
in any order: each of them is then a file store of its own if and only if no prefix of one is a
prefix of another's.
-/

namespace RandomArt.AwsS3FileStore

/-- What is stored besides the bytes of a file. -/
structure FileMetadata where
  contentType : Option (List Char)
  cacheControl : Option (List Char)
  contentEncoding : Option (List Char)
  tags : Option (List (List Char × List Char))

structure StoredObject where
  body : List UInt8
  metadata : Option FileMetadata

/-- `keyPrefix` is the optional `prefix` of the source. -/
structure AwsS3FileStoreConfig where
  bucket : List Char
  keyPrefix : Option (List Char)

def cleanPath : List Char → List Char
  | '/' :: path => path
  | path => path

namespace AwsS3FileStoreConfig

variable (config : AwsS3FileStoreConfig)

def cleanPrefix : List Char :=
  let keyPrefix := config.keyPrefix.getD []
  if keyPrefix = [] then []
  else if keyPrefix.getLast? = some '/' then keyPrefix
  else keyPrefix ++ ['/']

def buildKey (path : List Char) : List Char := config.cleanPrefix ++ cleanPath path

end AwsS3FileStoreConfig

inductive Command where
  | putObject (bucket key : List Char) (object : StoredObject)
  | getObject (bucket key : List Char)
  | deleteObject (bucket key : List Char)
  | headObject (bucket key : List Char)

/-- An answer of the service. Only that to `GetObject` has a body, in chunks. -/
structure Answer where
  body : Option (List (List UInt8))

structure AwsError where
  name : String
  message : List Char
  httpStatusCode : Option ℕ

section Errors

inductive StorageError where
  | invalidInput (message : List Char) (bucket key : Option (List Char))
  | bucketNotFound (bucket : List Char)
  | permission (message : List Char) (bucket key : Option (List Char))
  | network (message : List Char)

variable (toLowerCase : List Char → List Char)

def includes (text : List Char) (part : String) : Bool := part.toList <:+: text

/-- The class of an error, from its name and its message. -/
def classifyS3Error (error : AwsError) (bucket key : Option (List Char)) : StorageError :=
  let errorMessage := toLowerCase error.message
  if includes errorMessage "invalid bucket name" || includes errorMessage "invalid key" then
    .invalidInput error.message bucket key
  else if error.name == "NoSuchBucket" || includes errorMessage "does not exist" then
    .bucketNotFound (bucket.getD "unknown".toList)
  else if error.name == "AccessDenied" || includes errorMessage "access denied" ||
      includes errorMessage "permission" then
    .permission error.message bucket key
  else if includes errorMessage "timeout" || includes errorMessage "network" ||
      includes errorMessage "connection" || error.name == "RequestTimeout" then
    .network error.message
  else .network ("Unknown S3 error: ".toList ++ error.message)

end Errors

/-- The operations of a file store. -/
inductive Request where
  | write (path : List Char) (data : List UInt8) (metadata : Option FileMetadata)
  | read (path : List Char)
  | delete (path : List Char)
  | pathExists (path : List Char)

inductive Response where
  | uri (uri : List Char)
  | data (data : List UInt8)
  | done
  | found (found : Bool)

section Operations

variable (toLowerCase : List Char → List Char) (config : AwsS3FileStoreConfig)

def command : Request → Command
  | .write path data metadata => .putObject config.bucket (config.buildKey path) ⟨data, metadata⟩
  | .read path => .getObject config.bucket (config.buildKey path)
  | .delete path => .deleteObject config.bucket (config.buildKey path)
  | .pathExists path => .headObject config.bucket (config.buildKey path)

def emptyBody (key : List Char) : AwsError :=
  ⟨"Error", "Empty response body for S3 key: ".toList ++ key, none⟩

/-- What an operation makes of the answer to its command. -/
def respond : Request → Except AwsError Answer → Except StorageError Response
  | .write path _ _, .ok _ =>
    .ok (.uri ("s3://".toList ++ config.bucket ++ '/' :: config.buildKey path))
  | .read path, .ok answer =>
    match answer.body with
    | none => .error (classifyS3Error toLowerCase (emptyBody (config.buildKey path)) none path)
    | some chunks => .ok (.data chunks.flatten)
  | .delete _, .ok _ => .ok .done
  | .pathExists _, .ok _ => .ok (.found true)
  | .pathExists path, .error error =>
    if error.name = "NotFound" ∨ error.httpStatusCode = some 404 then .ok (.found false)
    else .error (classifyS3Error toLowerCase error none path)
  | .write path _ _, .error error => .error (classifyS3Error toLowerCase error none path)
  | .read path, .error error => .error (classifyS3Error toLowerCase error none path)
  | .delete path, .error error => .error (classifyS3Error toLowerCase error none path)

end Operations

section Service

/-- What is stored, by bucket and key. -/
abbrev Objects := List Char × List Char → Option StoredObject

/-- What a service may answer to a command, and what is stored then. -/
abbrev Service := Objects → Command → Except AwsError Answer → Objects → Prop

def AwsError.IsNotFound (error : AwsError) : Prop :=
  error.name = "NotFound" ∨ error.httpStatusCode = some 404

/-- What the service takes for a key: some characters, of 1024 bytes at most. -/
def IsObjectKey (key : List Char) : Prop :=
  key ≠ [] ∧ (key.flatMap String.utf8EncodeChar).length ≤ 1024

/-- What the service promises, over the buckets that there are. An operation that fails may have
been done all the same. -/
structure Service.Lawful (serves : Service) (buckets : Set (List Char)) : Prop where
  put : ∀ {objects bucket key object answer objects'},
    serves objects (.putObject bucket key object) answer objects' →
      objects' = Function.update objects (bucket, key) (some object) ∨
        (∃ error, answer = .error error) ∧ objects' = objects
  get : ∀ {objects bucket key answer objects'},
    serves objects (.getObject bucket key) answer objects' → objects' = objects ∧
      ∀ reply chunks, answer = .ok reply → reply.body = some chunks →
        (objects (bucket, key)).map StoredObject.body = some chunks.flatten
  delete : ∀ {objects bucket key answer objects'},
    serves objects (.deleteObject bucket key) answer objects' →
      objects' = Function.update objects (bucket, key) none ∨
        (∃ error, answer = .error error) ∧ objects' = objects
  head : ∀ {objects bucket key answer objects'},
    serves objects (.headObject bucket key) answer objects' → objects' = objects ∧
      (∀ reply, answer = .ok reply → (objects (bucket, key)).isSome) ∧
      ∀ error : AwsError, answer = .error error → error.IsNotFound → objects (bucket, key) = none
  /-- Objects can be put, and what is there can be found. -/
  put_served : ∀ objects bucket key object, bucket ∈ buckets → IsObjectKey key →
    ∃ answer, serves objects (.putObject bucket key object) (.ok answer)
      (Function.update objects (bucket, key) (some object))
  head_served : ∀ objects bucket key, bucket ∈ buckets → IsObjectKey key →
    (objects (bucket, key)).isSome →
      ∃ answer, serves objects (.headObject bucket key) (.ok answer) objects

variable {ι : Type} (toLowerCase : List Char → List Char)

/-- An operation of one of several stores, with what it returned or threw. -/
structure Event (ι : Type) where
  store : ι
  request : Request
  response : Except StorageError Response

/-- The operations of several stores, in any order. -/
inductive Run (serves : Service) (stores : ι → AwsS3FileStoreConfig) :
    Objects → List (Event ι) → Objects → Prop where
  | nil (objects : Objects) : Run serves stores objects [] objects
  | cons {objects objects' final : Objects} {answer : Except AwsError Answer}
      {events : List (Event ι)} (store : ι) (request : Request)
      (hserved : serves objects (command (stores store) request) answer objects')
      (hrest : Run serves stores objects' events final) :
      Run serves stores objects
        (⟨store, request, respond toLowerCase (stores store) request answer⟩ :: events) final

end Service

section Interface

abbrev Files := List Char → Option (List UInt8)

/-- What `IFileStore` promises of an operation: it is done, or it throws and is done or not. -/
inductive FileStep (files : Files) : Request → Except StorageError Response → Files → Prop where
  | written (path : List Char) (data : List UInt8) (metadata : Option FileMetadata)
      (uri : List Char) : FileStep files (.write path data metadata) (.ok (.uri uri))
        (Function.update files (cleanPath path) (some data))
  | read (path : List Char) {data : List UInt8} (h : files (cleanPath path) = some data) :
      FileStep files (.read path) (.ok (.data data)) files
  | deleted (path : List Char) : FileStep files (.delete path) (.ok .done)
      (Function.update files (cleanPath path) none)
  | pathExists (path : List Char) :
      FileStep files (.pathExists path) (.ok (.found (files (cleanPath path)).isSome)) files
  | failed (request : Request) (error : StorageError) :
      FileStep files request (.error error) files
  | failedWrite (path : List Char) (data : List UInt8) (metadata : Option FileMetadata)
      (error : StorageError) : FileStep files (.write path data metadata) (.error error)
        (Function.update files (cleanPath path) (some data))
  | failedDelete (path : List Char) (error : StorageError) :
      FileStep files (.delete path) (.error error) (Function.update files (cleanPath path) none)

/-- The operations of one file store. -/
inductive FileRun : Files → List (Request × Except StorageError Response) → Files → Prop where
  | nil (files : Files) : FileRun files [] files
  | cons {files files' final : Files} {request : Request}
      {response : Except StorageError Response}
      {events : List (Request × Except StorageError Response)}
      (hstep : FileStep files request response files') (hrest : FileRun files' events final) :
      FileRun files ((request, response) :: events) final

end Interface

section Isolation

/-- The files that a store finds in what is stored. -/
def view (config : AwsS3FileStoreConfig) (objects : Objects) : Files := fun path =>
  (objects (config.bucket, config.cleanPrefix ++ path)).map StoredObject.body

/-- No key of one store in its bucket is one of the other. -/
def Apart (config config' : AwsS3FileStoreConfig) : Prop :=
  config.bucket ≠ config'.bucket ∨
    ¬config.cleanPrefix <+: config'.cleanPrefix ∧ ¬config'.cleanPrefix <+: config.cleanPrefix

theorem Apart.symm {config config' : AwsS3FileStoreConfig} (h : Apart config config') :
    Apart config' config := by
  rcases h with hbucket | ⟨hleft, hright⟩
  · exact Or.inl hbucket.symm
  · exact Or.inr ⟨hright, hleft⟩

theorem Apart.ne {config config' : AwsS3FileStoreConfig} (h : Apart config config')
    (path path' : List Char) :
    (config.bucket, config.cleanPrefix ++ path) ≠
      (config'.bucket, config'.cleanPrefix ++ path') := by
  intro heq
  obtain ⟨hbucket, hkey⟩ := Prod.mk.inj heq
  rcases h with hne | ⟨hleft, hright⟩
  · exact hne hbucket
  · have hprefix : config.cleanPrefix <+: config'.cleanPrefix ++ path' :=
      hkey ▸ List.prefix_append _ _
    rcases List.prefix_or_prefix_of_prefix hprefix (List.prefix_append _ _) with h | h
    · exact hleft h
    · exact hright h

theorem exists_buildKey_eq {config config' : AwsS3FileStoreConfig}
    (h : config.cleanPrefix <+: config'.cleanPrefix) (path' : List Char) :
    ∃ path, config.buildKey path = config'.buildKey path' := by
  obtain ⟨rest, hrest⟩ := h
  refine ⟨'/' :: (rest ++ cleanPath path'), ?_⟩
  rw [AwsS3FileStoreConfig.buildKey, AwsS3FileStoreConfig.buildKey, ← hrest, List.append_assoc]
  rfl

theorem view_update (config : AwsS3FileStoreConfig) (objects : Objects) (path : List Char)
    (object : Option StoredObject) :
    view config (Function.update objects (config.bucket, config.buildKey path) object) =
      Function.update (view config objects) (cleanPath path) (object.map StoredObject.body) := by
  funext path'
  by_cases hpath : path' = cleanPath path
  · subst hpath
    rw [view, AwsS3FileStoreConfig.buildKey, Function.update_self, Function.update_self]
  · have hkey : (config.bucket, config.cleanPrefix ++ path') ≠
        (config.bucket, config.buildKey path) := by
      intro heq
      exact hpath (List.append_cancel_left (Prod.mk.inj heq).2)
    rw [view, Function.update_of_ne hkey, Function.update_of_ne hpath, view]

theorem view_update_apart {config config' : AwsS3FileStoreConfig} (h : Apart config config')
    (objects : Objects) (path : List Char) (object : Option StoredObject) :
    view config (Function.update objects (config'.bucket, config'.buildKey path) object) =
      view config objects := by
  funext path'
  have hkey : (config.bucket, config.cleanPrefix ++ path') ≠
      (config'.bucket, config'.buildKey path) := h.ne path' (cleanPath path)
  rw [view, Function.update_of_ne hkey, view]

variable {serves : Service} {buckets : Set (List Char)} (hlawful : serves.Lawful buckets)
  (toLowerCase : List Char → List Char)
include hlawful

theorem fileStep_respond {config : AwsS3FileStoreConfig} {request : Request}
    {objects objects' : Objects} {answer : Except AwsError Answer}
    (h : serves objects (command config request) answer objects') :
    FileStep (view config objects) request (respond toLowerCase config request answer)
      (view config objects') := by
  cases request with
  | write path data metadata =>
    rcases hlawful.put h with rfl | ⟨⟨error, rfl⟩, rfl⟩
    · rw [view_update]
      cases answer with
      | ok reply => exact .written path data metadata _
      | error error => exact .failedWrite path data metadata _
    · exact .failed _ _
  | read path =>
    obtain ⟨rfl, hbody⟩ := hlawful.get h
    cases answer with
    | error error => exact .failed _ _
    | ok reply =>
      rcases hreply : reply.body with _ | chunks
      · rw [respond, hreply]
        exact .failed _ _
      · rw [respond, hreply]
        exact .read path (hbody reply chunks rfl hreply)
  | delete path =>
    rcases hlawful.delete h with rfl | ⟨⟨error, rfl⟩, rfl⟩
    · rw [view_update]
      cases answer with
      | ok reply => exact .deleted path
      | error error => exact .failedDelete path _
    · exact .failed _ _
  | pathExists path =>
    obtain ⟨rfl, hfound, hmissing⟩ := hlawful.head h
    have hview : (view config objects' (cleanPath path)).isSome =
        (objects' (config.bucket, config.buildKey path)).isSome := Option.isSome_map
    cases answer with
    | ok reply =>
      rw [respond, ← hfound reply rfl, ← hview]
      exact .pathExists path
    | error error =>
      rw [respond]
      split
      · rename_i hnotFound
        have hnone := hmissing error rfl hnotFound
        have hfalse : false = (view config objects' (cleanPath path)).isSome := by
          rw [hview, hnone]
          rfl
        rw [hfalse]
        exact .pathExists path
      · exact .failed _ _

theorem view_of_apart {config config' : AwsS3FileStoreConfig} (happart : Apart config config')
    {request : Request} {objects objects' : Objects} {answer : Except AwsError Answer}
    (h : serves objects (command config' request) answer objects') :
    view config objects' = view config objects := by
  cases request with
  | write path data metadata =>
    rcases hlawful.put h with rfl | ⟨-, rfl⟩
    · exact view_update_apart happart _ _ _
    · rfl
  | read path => rw [(hlawful.get h).1]
  | delete path =>
    rcases hlawful.delete h with rfl | ⟨-, rfl⟩
    · exact view_update_apart happart _ _ _
    · rfl
  | pathExists path => rw [(hlawful.head h).1]

variable {ι : Type} [DecidableEq ι] {stores : ι → AwsS3FileStoreConfig}

omit hlawful in
def eventsOf (store : ι) (events : List (Event ι)) :
    List (Request × Except StorageError Response) :=
  (events.filter fun event => event.store = store).map fun event => (event.request, event.response)

/-- Of a run of stores that are apart, the part of one store is a run of a file store. -/
theorem fileRun_of_run {store : ι} (happart : ∀ other, other ≠ store →
      Apart (stores store) (stores other))
    {objects final : Objects} {events : List (Event ι)}
    (hrun : Run toLowerCase serves stores objects events final) :
    FileRun (view (stores store) objects) (eventsOf store events) (view (stores store) final) := by
  induction hrun with
  | nil objects => exact .nil _
  | cons other request hserved hrest ih =>
    by_cases hother : other = store
    · subst hother
      have hstep := fileStep_respond hlawful toLowerCase hserved
      simpa [eventsOf] using FileRun.cons hstep ih
    · rw [view_of_apart hlawful (happart other hother) hserved] at ih
      simpa [eventsOf, hother] using ih

/-- A key in common is used by one store to write and by the other to find the file. -/
theorem not_fileRun_of_common {store other : ι} (hne : store ≠ other)
    (hbucket : (stores store).bucket = (stores other).bucket)
    (hexists : (stores store).bucket ∈ buckets) {path path' : List Char}
    (hkey : (stores store).buildKey path = (stores other).buildKey path')
    (hlegal : IsObjectKey ((stores store).buildKey path)) :
    ∃ events final, Run toLowerCase serves stores (fun _ => none) events final ∧
      ¬∃ files, FileRun (view (stores other) fun _ => none) (eventsOf other events) files := by
  let object : StoredObject := ⟨[], none⟩
  let objects : Objects := Function.update (fun _ => none)
    ((stores store).bucket, (stores store).buildKey path) (some object)
  obtain ⟨put, hput⟩ := hlawful.put_served (fun _ => none) (stores store).bucket
    ((stores store).buildKey path) object hexists hlegal
  have hsome : (objects ((stores other).bucket, (stores other).buildKey path')).isSome := by
    rw [← hbucket, ← hkey]
    simp [objects]
  obtain ⟨head, hhead⟩ := hlawful.head_served objects _ _ (hbucket ▸ hexists) (hkey ▸ hlegal) hsome
  have hwrite : serves (fun _ => none) (command (stores store) (.write path [] none)) (.ok put)
      objects := hput
  have hfind : serves objects (command (stores other) (.pathExists path')) (.ok head) objects :=
    hhead
  refine ⟨_, _, .cons store _ hwrite (.cons other _ hfind (.nil objects)), ?_⟩
  rintro ⟨files, hrun⟩
  have hfound : FileRun (view (stores other) fun _ => none) [(.pathExists path',
      .ok (.found true))] files := by
    simpa [eventsOf, hne, respond] using hrun
  obtain - | ⟨hstep, -⟩ := hfound
  cases hstep

omit hlawful in
/-- The store has a bucket, and room for a file behind its prefix. -/
def Usable (buckets : Set (List Char)) (config : AwsS3FileStoreConfig) : Prop :=
  config.bucket ∈ buckets ∧ ∃ path, IsObjectKey (config.buildKey path)

/-- In every run each of the stores is a file store of its own. -/
def Isolated (serves : Service) (stores : ι → AwsS3FileStoreConfig) : Prop :=
  ∀ objects events final, Run toLowerCase serves stores objects events final →
    ∀ store, ∃ files, FileRun (view (stores store) objects) (eventsOf store events) files

theorem not_isolated_of_prefix {store other : ι} (hne : store ≠ other)
    (hbucket : (stores store).bucket = (stores other).bucket)
    (hstart : (stores store).cleanPrefix <+: (stores other).cleanPrefix)
    (husable : Usable buckets (stores other)) : ¬Isolated toLowerCase serves stores := by
  intro hisolated
  obtain ⟨hexists, path', hlegal⟩ := husable
  obtain ⟨path, hkey⟩ := exists_buildKey_eq hstart path'
  obtain ⟨events, final, hrun, hnot⟩ := not_fileRun_of_common hlawful toLowerCase hne hbucket
    (hbucket ▸ hexists) hkey (hkey ▸ hlegal)
  exact hnot (hisolated _ events final hrun other)

/-- Stores that use one service, in any order of their operations and whatever fails, are all file
stores of their own when any two of them are apart; and if all of them can be used, only then. -/
theorem isolated_iff :
    ((Pairwise fun store other => Apart (stores store) (stores other)) →
      Isolated toLowerCase serves stores) ∧
    ((∀ store, Usable buckets (stores store)) → (Isolated toLowerCase serves stores ↔
      Pairwise fun store other => Apart (stores store) (stores other))) := by
  have hisolated : (Pairwise fun store other => Apart (stores store) (stores other)) →
      Isolated toLowerCase serves stores := fun happart objects events final hrun store =>
    ⟨_, fileRun_of_run hlawful toLowerCase (fun other hne => happart hne.symm) hrun⟩
  refine ⟨hisolated, fun husable => ⟨fun h store other hne => ?_, hisolated⟩⟩
  show Apart (stores store) (stores other)
  by_contra hcommon
  rw [Apart, not_or, not_and_or, not_not, not_not, not_not] at hcommon
  obtain ⟨hbucket, hstart | hstart⟩ := hcommon
  · exact not_isolated_of_prefix hlawful toLowerCase hne hbucket hstart (husable other) h
  · exact not_isolated_of_prefix hlawful toLowerCase hne.symm hbucket.symm hstart (husable store) h

end Isolation

section ExactService

def exactService : Service := fun objects command answer objects' =>
  match command with
  | .putObject bucket key object =>
    answer = .ok ⟨none⟩ ∧ objects' = Function.update objects (bucket, key) (some object)
  | .getObject bucket key => objects' = objects ∧
    answer = match objects (bucket, key) with
      | some object => .ok ⟨some [object.body]⟩
      | none => .error ⟨"NoSuchKey", "The specified key does not exist.".toList, some 404⟩
  | .deleteObject bucket key =>
    answer = .ok ⟨none⟩ ∧ objects' = Function.update objects (bucket, key) none
  | .headObject bucket key => objects' = objects ∧
    answer = match objects (bucket, key) with
      | some _ => .ok ⟨none⟩
      | none => .error ⟨"NotFound", "UnknownError".toList, some 404⟩

theorem exactService_lawful (buckets : Set (List Char)) : exactService.Lawful buckets where
  put h := Or.inl h.2
  get := by
    rintro objects bucket key answer objects' ⟨hsame, rfl⟩
    refine ⟨hsame, fun reply chunks hreply hchunks => ?_⟩
    rcases hobject : objects (bucket, key) with _ | object
    · rw [hobject] at hreply
      cases hreply
    · rw [hobject] at hreply
      cases hreply
      cases hchunks
      simp
  delete h := Or.inl h.2
  head := by
    rintro objects bucket key answer objects' ⟨hsame, rfl⟩
    refine ⟨hsame, fun reply hreply => ?_, fun error herror _ => ?_⟩ <;>
      rcases hobject : objects (bucket, key) with _ | object
    · rw [hobject] at hreply
      cases hreply
    · rfl
    · rfl
    · rw [hobject] at herror
      cases herror
  put_served objects bucket key object _ _ := ⟨⟨none⟩, rfl, rfl⟩
  head_served objects bucket key _ _ h := by
    obtain ⟨object, hobject⟩ := Option.isSome_iff_exists.mp h
    exact ⟨⟨none⟩, rfl, by rw [hobject]⟩

def twoStores (first : Bool) : AwsS3FileStoreConfig :=
  ⟨"art".toList, if first then "a".toList else "ab".toList⟩

theorem apart_twoStores :
    Pairwise fun store other => Apart (twoStores store) (twoStores other) := by
  intro store other hne
  right
  revert store other
  decide

theorem usable_twoStores (store : Bool) : Usable {"art".toList} (twoStores store) := by
  refine ⟨rfl, "f".toList, ?_⟩
  cases store <;> exact ⟨by decide, by decide⟩

theorem isolated_two : Isolated id exactService twoStores ∧
    ((Isolated id exactService twoStores) ↔
      Pairwise fun store other => Apart (twoStores store) (twoStores other)) :=
  ⟨(isolated_iff (exactService_lawful {"art".toList}) id).1 apart_twoStores,
    (isolated_iff (exactService_lawful {"art".toList}) id).2 usable_twoStores⟩

end ExactService

end RandomArt.AwsS3FileStore
