import RandomArt.FsBlockstoreRefinement

/-!
# Puts that fail

The calls of a file system may fail for reasons of their own, and a write that fails may have
emptied or filled a part of the file already. A put whose write fails drops its cache entry and
removes the file, whatever the two held before.
-/

namespace RandomArt.FsBlockstore

open FileSystem Failing

/-- Calls of a file system, each with its outcome and the disk that it leaves. A call changes the
disk only where it is made, and a file that could not be removed stays. -/
structure FileCalls (E : Type) where
  mkdir : Path → Disk → Except E Unit × Disk
  writeFile : Path → Content → Disk → Except E Unit × Disk
  unlink : Path → Disk → Except E Unit × Disk
  node_mkdir : ∀ path disk other, ¬other <+: path →
    (mkdir path disk).2.node other = disk.node other
  node_writeFile : ∀ path content disk other, other ≠ path →
    (writeFile path content disk).2.node other = disk.node other
  unlink_ok : ∀ path disk, (unlink path disk).1 = .ok ⟨⟩ →
    (unlink path disk).2 = disk.set path none
  unlink_error : ∀ path disk error, (unlink path disk).1 = .error error →
    (unlink path disk).2 = disk

/-- What a put throws: failures of the store, and those of the calls. -/
inductive PutFailure (E : Type) where
  | own (failure : Failure)
  | system (error : E)

variable {E Cid : Type}

section Model

def own {α : Type} (m : Storing α) : Failing (PutFailure E) Store α := ExceptT.adapt .own m

def calling (call : Disk → Except E Unit × Disk) : Failing (PutFailure E) Store PUnit := do
  let store ← MonadState.get
  set { store with disk := (call store.disk).2 }
  ofExcept ((call store.disk).1.mapError .system)

/-- The put, over the calls of a file system. The signal may be aborted while the directory is
made, so `later` are the options as they are then. -/
def putWith (calls : FileCalls E) (fs : Setup Cid) (key : Cid) (val : Content)
    (options later : Option AbortOptions) : Failing (PutFailure E) Store Cid := do
  own (assertIsOpen options)
  let cidStr := fromCidToString fs key
  let blockPath := fromCidToPath fs cidStr
  calling (calls.mkdir (dirname blockPath))
  own (assertIsOpen later)
  tryCatch
    (do
      calling (calls.writeFile blockPath val)
      own (cacheSet cidStr val)
      return key)
    fun err => do
      own (cacheDelete cidStr)
      calling (calls.unlink blockPath)
      throw err

end Model

section Spec

theorem exec_own {α : Type} (m : Storing α) (store : Store) :
    exec (own m : Failing (PutFailure E) Store α) store =
      ((exec m store).1.mapError .own, (exec m store).2) := rfl

theorem exec_calling (call : Disk → Except E Unit × Disk) (store : Store) :
    exec (calling call) store =
      ((call store.disk).1.mapError .system, { store with disk := (call store.disk).2 }) := by
  rw [calling, exec_bind, Failing.exec_get]
  exact (exec_bind _ _ _).trans (exec_ofExcept _ _)

theorem exec_checked (options : Option AbortOptions) (store : Store) :
    exec (own (assertIsOpen options) : Failing (PutFailure E) Store PUnit) store =
      ((mayStart.{0} store.openState options).mapError .own, store) := by
  rw [exec_own, exec_assertIsOpen]

theorem exec_cacheSet (cidStr : String) (val : Content) (store : Store) :
    exec (own (cacheSet cidStr val) : Failing (PutFailure E) Store PUnit) store =
      (.ok ⟨⟩, { store with lruCache := Function.update store.lruCache cidStr (some val) }) := rfl

theorem exec_cacheDelete (cidStr : String) (store : Store) :
    exec (own (cacheDelete cidStr) : Failing (PutFailure E) Store PUnit) store =
      (.ok ⟨⟩, { store with lruCache := Function.update store.lruCache cidStr none }) := rfl

end Spec

section Steps

variable (calls : FileCalls E) (fs : Setup Cid) (key : Cid) (val : Content) (store : Store)
  {options later : Option AbortOptions}

abbrev blockPath : Path := fromCidToPath fs (fromCidToString fs key)

/-- The disk once the directory of the block has been made, or part of it. -/
abbrev madeDisk : Disk := (calls.mkdir (dirname (blockPath fs key)) store.disk).2

/-- The disk once the block has been written, or part of it. -/
abbrev writtenDisk : Disk :=
  (calls.writeFile (blockPath fs key) val (madeDisk calls fs key store)).2

/-- The store after a write that failed: the cache entry is dropped and the file removed. -/
def cleanedUp : Store :=
  ⟨store.openState, Function.update store.lruCache (fromCidToString fs key) none,
    (calls.unlink (blockPath fs key) (writtenDisk calls fs key val store)).2⟩

/-- The put comes to its write. -/
structure ReachesWrite (options later : Option AbortOptions) : Prop where
  started : mayStart.{0} store.openState options = .ok ⟨⟩
  made : (calls.mkdir (dirname (blockPath fs key)) store.disk).1 = .ok ⟨⟩
  goesOn : mayStart.{0} store.openState later = .ok ⟨⟩

variable {calls fs key val store}

variable (val) in
theorem exec_putWith_early (h : ¬ReachesWrite calls fs key store options later) :
    ∃ failure disk, (disk = store.disk ∨ disk = madeDisk calls fs key store) ∧
      exec (putWith calls fs key val options later) store =
        (.error failure, { store with disk }) := by
  cases hstart : mayStart.{0} store.openState options with
  | error failure =>
    refine ⟨.own failure, store.disk, Or.inl rfl, ?_⟩
    simp only [putWith, exec_bind, exec_checked, hstart, Except.mapError]
  | ok u =>
    cases hmade : (calls.mkdir (dirname (blockPath fs key)) store.disk).1 with
    | error error =>
      refine ⟨.system error, _, Or.inr rfl, ?_⟩
      simp only [putWith, exec_bind, exec_checked, hstart, exec_calling, hmade, Except.mapError,
        madeDisk]
    | ok u =>
      cases hlater : mayStart.{0} store.openState later with
      | error failure =>
        refine ⟨.own failure, _, Or.inr rfl, ?_⟩
        simp only [putWith, exec_bind, exec_checked, hstart, exec_calling, hmade, hlater,
          Except.mapError, madeDisk]
      | ok u => exact absurd ⟨hstart, hmade, hlater⟩ h

theorem exec_putWith_written (h : ReachesWrite calls fs key store options later)
    (hwrite : (calls.writeFile (blockPath fs key) val (madeDisk calls fs key store)).1 = .ok ⟨⟩) :
    exec (putWith calls fs key val options later) store =
      (.ok key, ⟨store.openState,
        Function.update store.lruCache (fromCidToString fs key) (some val),
        writtenDisk calls fs key val store⟩) := by
  obtain ⟨hstart, hmade, hlater⟩ := h
  simp only [putWith, exec_bind, exec_checked, hstart, exec_calling, hmade, hlater, exec_tryCatch,
    hwrite, Except.mapError, exec_cacheSet, exec_pure]

theorem exec_putWith_unwritten (h : ReachesWrite calls fs key store options later) {error : E}
    (hwrite : (calls.writeFile (blockPath fs key) val (madeDisk calls fs key store)).1 =
      .error error) :
    ∃ failure, exec (putWith calls fs key val options later) store =
      (.error failure, cleanedUp calls fs key val store) := by
  obtain ⟨hstart, hmade, hlater⟩ := h
  cases hunlink : (calls.unlink (blockPath fs key) (writtenDisk calls fs key val store)).1 with
  | error error' =>
    refine ⟨.system error', ?_⟩
    simp only [putWith, exec_bind, exec_checked, hstart, exec_calling, hmade, hlater,
      exec_tryCatch, hwrite, Except.mapError, exec_cacheDelete, hunlink,
      cleanedUp]
  | ok u =>
    refine ⟨.system error, ?_⟩
    simp only [putWith, exec_bind, exec_checked, hstart, exec_calling, hmade, hlater,
      exec_tryCatch, hwrite, Except.mapError, exec_cacheDelete, hunlink,
      exec_throw, cleanedUp]

end Steps

section Answers

/-- What a store has for the text of a CID: the cached block, or else what lies on the disk. -/
def held (fs : Setup Cid) (store : Store) (k : String) : Option Node :=
  ((store.lruCache k).map Node.file).or (store.disk.node (fromCidToPath fs k))

def contentOf : Option Node → Option Content
  | some (.file content) => some content
  | some .dir | none => none

theorem eq_of_contentOf {x y : Option Node} (hcontent : contentOf x = contentOf y)
    (hsome : x.isSome = y.isSome) : x = y := by
  rcases x with _ | _ | content <;> rcases y with _ | _ | content' <;>
    simp_all [contentOf]

variable {fs : Setup Cid} {store store' : Store}

theorem answer_get_held (key : Cid) (options : Option AbortOptions) :
    (exec (get fs key options) store).1 = mayStart store.openState options >>= fun _ =>
      (contentOf (held fs store (fromCidToString fs key))).elim
        (.error (.notFound (fromCidToString fs key))) .ok := by
  have hfound : (store.lruCache (fromCidToString fs key)).or
      (fetchMethod fs (fromCidToString fs key) none store.disk) =
        contentOf (held fs store (fromCidToString fs key)) := by
    rw [held, fetchMethod, Disk.readFile]
    cases store.lruCache (fromCidToString fs key) with
    | some val => rfl
    | none =>
      rcases store.disk.node (fromCidToPath fs (fromCidToString fs key)) with _ | _ | content <;>
        rfl
  rw [answer_get, hfound]

theorem answer_has_held (key : Cid) (options : Option AbortOptions) :
    (exec (has fs key options) store).1 = mayStart store.openState options >>= fun _ =>
      .ok (held fs store (fromCidToString fs key)).isSome := by
  have hpresent : ((store.lruCache (fromCidToString fs key)).isSome ||
      (store.disk.stat (fromCidToPath fs (fromCidToString fs key))).isOk) =
        (held fs store (fromCidToString fs key)).isSome := by
    rw [held, Disk.stat]
    cases store.lruCache (fromCidToString fs key) with
    | some val => rfl
    | none => cases store.disk.node (fromCidToPath fs (fromCidToString fs key)) <;> rfl
  rw [answer_has, hpresent]

/-- Both stores answer alike about every block. -/
def SameAnswers (fs : Setup Cid) (store store' : Store) : Prop := ∀ key options,
  (exec (get fs key options) store').1 = (exec (get fs key options) store).1 ∧
    (exec (has fs key options) store').1 = (exec (has fs key options) store).1

theorem sameAnswers_of_held (hopen : store'.openState = store.openState)
    (hheld : ∀ key, held fs store' (fromCidToString fs key) =
      held fs store (fromCidToString fs key)) : SameAnswers fs store store' := by
  intro key options
  rw [answer_get_held, answer_get_held, answer_has_held, answer_has_held, hopen, hheld]
  exact ⟨rfl, rfl⟩

theorem held_eq_of_sameAnswers (hopened : store.openState = .opened)
    (hopen : store'.openState = store.openState) (h : SameAnswers fs store store') (key : Cid) :
    held fs store' (fromCidToString fs key) = held fs store (fromCidToString fs key) := by
  obtain ⟨hget, hhas⟩ := h key none
  rw [answer_get_held, answer_get_held, hopen, hopened, mayStart_opened (by simp)] at hget
  rw [answer_has_held, answer_has_held, hopen, hopened, mayStart_opened (by simp)] at hhas
  apply eq_of_contentOf
  · revert hget
    cases contentOf (held fs store' (fromCidToString fs key)) <;>
      cases contentOf (held fs store (fromCidToString fs key)) <;> intro hget
    · rfl
    · cases hget
    · cases hget
    · exact congrArg some (Except.ok.inj hget)
  · exact Except.ok.inj hhas

end Answers

section Atomicity

variable {calls : FileCalls E} {fs : Setup Cid} {store : Store} {key : Cid} {val : Content}
  {options later : Option AbortOptions} (htext : ∀ cid, IsCidText (fromCidToString fs cid))

/-- When the put fails, the store answers as it did before. -/
def FailsAtomically (calls : FileCalls E) (fs : Setup Cid) (key : Cid) (val : Content)
    (options later : Option AbortOptions) (store : Store) : Prop :=
  ∀ failure store', exec (putWith calls fs key val options later) store =
    (.error failure, store') → SameAnswers fs store store'

/-- What a failed write leaves at a path: nothing, when the file can be removed. -/
def leftBehind (calls : FileCalls E) (path : Path) (disk : Disk) : Option Node :=
  match (calls.unlink path disk).1 with
  | .ok _ => none
  | .error _ => disk.node path

theorem leftBehind_eq_iff (path : Path) (disk : Disk) (node : Option Node) :
    leftBehind calls path disk = node ↔
      ((calls.unlink path disk).1 = .ok ⟨⟩ → node = none) ∧
        ((∃ error, (calls.unlink path disk).1 = .error error) → disk.node path = node) := by
  rw [leftBehind]
  cases (calls.unlink path disk).1 with
  | ok u => simp [eq_comm]
  | error error => simp

theorem node_unlink (path : Path) (disk : Disk) (other : Path) :
    (calls.unlink path disk).2.node other =
      if other = path then leftBehind calls path disk else disk.node other := by
  rw [leftBehind]
  cases hunlink : (calls.unlink path disk).1 with
  | ok u => rw [calls.unlink_ok path disk hunlink, Disk.node_set]
  | error error =>
    rw [calls.unlink_error path disk error hunlink]
    split_ifs with hpath
    · rw [hpath]
    · rfl

include htext

theorem node_madeDisk (key' : Cid) : (madeDisk calls fs key store).node (blockPath fs key') =
    store.disk.node (blockPath fs key') :=
  calls.node_mkdir _ _ _ (not_prefix_dirname (htext key) (htext key'))

theorem held_early {disk : Disk} (hdisk : disk = store.disk ∨ disk = madeDisk calls fs key store)
    (key' : Cid) : held fs { store with disk } (fromCidToString fs key') =
      held fs store (fromCidToString fs key') := by
  rcases hdisk with rfl | rfl
  · rfl
  · rw [held, held, node_madeDisk htext]

theorem held_unwritten (key' : Cid) :
    held fs (cleanedUp calls fs key val store) (fromCidToString fs key') =
    if fromCidToString fs key' = fromCidToString fs key then
      leftBehind calls (blockPath fs key) (writtenDisk calls fs key val store)
    else held fs store (fromCidToString fs key') := by
  have hpath := fromCidToPath_inj fs (htext key') (htext key)
  simp only [held, cleanedUp, node_unlink, Function.update_apply, hpath]
  split_ifs with hsame
  · rfl
  · rw [calls.node_writeFile _ _ _ _ (fun heq => hsame (hpath.mp heq)), node_madeDisk htext]

theorem leftBehind_of_failsAtomically (h : FailsAtomically calls fs key val options later store)
    (hreaches : ReachesWrite calls fs key store options later) {error : E}
    (hwrite : (calls.writeFile (blockPath fs key) val (madeDisk calls fs key store)).1 =
      .error error) :
    leftBehind calls (blockPath fs key) (writtenDisk calls fs key val store) =
      held fs store (fromCidToString fs key) := by
  obtain ⟨failure, hexec⟩ := exec_putWith_unwritten hreaches hwrite
  have hopened : store.openState = .opened := by
    by_contra hne
    have hstarted := hreaches.started
    rw [mayStart, if_pos hne] at hstarted
    cases hstarted
  have hopen : (cleanedUp calls fs key val store).openState = store.openState := rfl
  have hsame := held_eq_of_sameAnswers hopened hopen (h _ _ hexec) key
  rw [held_unwritten htext key, if_pos rfl] at hsame
  exact hsame

theorem sameAnswers_unwritten
    (hleft : leftBehind calls (blockPath fs key) (writtenDisk calls fs key val store) =
      held fs store (fromCidToString fs key)) :
    SameAnswers fs store (cleanedUp calls fs key val store) := by
  have hopen : (cleanedUp calls fs key val store).openState = store.openState := rfl
  apply sameAnswers_of_held hopen
  intro key'
  rw [held_unwritten htext key']
  split_ifs with hsame
  · rw [hsame]
    exact hleft
  · rfl

end Atomicity

section Exact

/-- A call that fails leaves the disk as it was. -/
def exactly (change : Disk → Except FsError Disk) (disk : Disk) : Except String Unit × Disk :=
  match change disk with
  | .ok disk' => (.ok ⟨⟩, disk')
  | .error error => (.error (FsErrorCode error), disk)

theorem exactly_of_ok (change : Disk → Except FsError Disk) {disk disk' : Disk}
    (h : change disk = .ok disk') : exactly change disk = (.ok ⟨⟩, disk') := by
  rw [exactly, h]

theorem node_mkdir_exactly (path : Path) (disk : Disk) (other : Path) (h : ¬other <+: path) :
    (exactly (·.mkdir path) disk).2.node other = disk.node other := by
  rw [exactly]
  cases hmkdir : disk.mkdir path with
  | error error => rfl
  | ok disk' =>
    rw [Disk.mkdir] at hmkdir
    split_ifs at hmkdir
    cases hmkdir
    exact (Disk.node_withDir path other).trans (if_neg h)

theorem unlink_exactly (path : Path) (disk : Disk) :
    ((exactly (·.unlink path) disk).1 = .ok ⟨⟩ →
      (exactly (·.unlink path) disk).2 = disk.set path none) ∧
    ∀ error, (exactly (·.unlink path) disk).1 = .error error →
      (exactly (·.unlink path) disk).2 = disk := by
  rw [exactly]
  cases hunlink : disk.unlink path with
  | error error =>
    refine ⟨fun h => ?_, fun _ _ => rfl⟩
    cases h
  | ok disk' =>
    refine ⟨fun _ => Disk.eq_set_of_unlink hunlink, fun _ h => ?_⟩
    cases h

/-- The file system whose calls fail for no other reasons than the disk. -/
def exactCalls : FileCalls String where
  mkdir path := exactly (·.mkdir path)
  writeFile path content := exactly (·.writeFile path content)
  unlink path := exactly (·.unlink path)
  node_mkdir := node_mkdir_exactly
  node_writeFile path content disk other hne := by
    rw [exactly]
    cases hwrite : disk.writeFile path content with
    | error error => rfl
    | ok disk' => rw [Disk.eq_set_of_writeFile hwrite, Disk.node_set, if_neg hne]
  unlink_ok path disk := (unlink_exactly path disk).1
  unlink_error path disk := (unlink_exactly path disk).2

def PutFailure.message : PutFailure String → String
  | .own failure => failure.message
  | .system error => error

theorem agree_own {α : Type} (m : Storing α) :
    Agree Failure.message PutFailure.message m (own m) := by
  intro s
  rw [exec_own]
  cases (exec m s).1 <;> exact ⟨rfl, rfl⟩

theorem agree_changing (change : Disk → Except FsError Disk) :
    Agree Failure.message PutFailure.message (changing change) (calling (exactly change)) := by
  intro s
  rw [exec_changing, exec_calling, exactly]
  cases change s.disk <;> exact ⟨rfl, rfl⟩

/-- Over these calls the put is that of the block store. -/
theorem agree_put (fs : Setup Cid) (key : Cid) (val : Content) (options : Option AbortOptions) :
    Agree Failure.message PutFailure.message (put fs key val options)
      (putWith exactCalls fs key val options options) := by
  apply (agree_own _).bind
  intro _
  apply (agree_changing _).bind
  intro _
  apply (agree_own _).bind
  intro _
  apply Agree.tryCatch
  · apply (agree_changing _).bind
    intro _
    apply (agree_own _).bind
    intro _
    exact agree_pure key
  · intro failure failure' hread
    apply (agree_own _).bind
    intro _
    apply (agree_changing _).bind
    intro _
    exact agree_throw hread

end Exact

section FullDisk

/-- A file system whose disk is full: a write empties the file and fails. -/
def fullDisk : FileCalls String where
  mkdir := exactCalls.mkdir
  writeFile path _ disk := (.error "ENOSPC", disk.set path (some (.file [])))
  unlink := exactCalls.unlink
  node_mkdir := exactCalls.node_mkdir
  node_writeFile path _ disk other hne := by rw [Disk.node_set, if_neg hne]
  unlink_ok := exactCalls.unlink_ok
  unlink_error := exactCalls.unlink_error

theorem fullDisk_mkdir (path : Path) (disk : Disk) :
    fullDisk.mkdir path disk = exactly (·.mkdir path) disk := rfl

theorem fullDisk_unlink (path : Path) (disk : Disk) :
    fullDisk.unlink path disk = exactly (·.unlink path) disk := rfl

variable {fs : Setup Cid} {store : Store} {key : Cid} {val : Content}

theorem leftBehind_fullDisk :
    leftBehind fullDisk (blockPath fs key) (writtenDisk fullDisk fs key val store) = none := by
  have hnode : (writtenDisk fullDisk fs key val store).node (blockPath fs key) =
      (some []).map Node.file := (Disk.node_set _ _ _).trans (if_pos rfl)
  generalize writtenDisk fullDisk fs key val store = disk at hnode
  rw [leftBehind, fullDisk_unlink,
    exactly_of_ok (·.unlink (blockPath fs key)) (Disk.unlink_eq hnode)]

theorem Represents.reachesWrite {blocks : BlockMap} (h : Represents fs store blocks)
    (hkey : IsCidText (fromCidToString fs key)) :
    ReachesWrite fullDisk fs key store none none := by
  have hmkdir := Disk.mkdir_eq_ok (h.placed _ hkey)
  have hstart : mayStart.{0} store.openState none = .ok ⟨⟩ := by
    rw [h.opened, mayStart_opened (by simp)]
  refine ⟨hstart, ?_, hstart⟩
  rw [fullDisk_mkdir, exactly_of_ok (·.mkdir (dirname (blockPath fs key))) hmkdir]

theorem Represents.held_eq {blocks : BlockMap} (h : Represents fs store blocks)
    (hkey : IsCidText (fromCidToString fs key)) :
    held fs store (fromCidToString fs key) = (blocks (fromCidToString fs key)).map Node.file := by
  rw [held, h.onDisk _ hkey]
  cases hcached : store.lruCache (fromCidToString fs key) with
  | none => rfl
  | some val =>
    rw [h.cached _ _ hcached]
    rfl

theorem held_emptyStore {k : String} (hk : IsCidText k) : held twoCids emptyStore k = none := by
  change emptyStore.disk.node (fromCidToPath twoCids k) = none
  rw [emptyStore, Disk.node_withDir, if_neg]
  intro hprefix
  have hle := hprefix.length_le
  rw [length_fromCidToPath twoCids hk] at hle
  exact absurd hle (by decide)

theorem represents_emptyStore : Represents twoCids emptyStore (blocksOf twoCids emptyStore.disk) :=
  represents_blocksOf rfl wellPlaced_emptyStore fun _ _ h => by cases h

end FullDisk

section Result

variable {calls : FileCalls E} {fs : Setup Cid} {store : Store} {key : Cid} {val : Content}
  {options later : Option AbortOptions}

/-- A put fails atomically exactly when it fails before its write, when it does not fail, or when
its failing write leaves behind what the store had for the block: nothing where the file is removed
again, and the file as it has been written where it cannot be. -/
theorem put_failsAtomically_iff (htext : ∀ cid, IsCidText (fromCidToString fs cid)) :
    FailsAtomically calls fs key val options later store ↔
      (ReachesWrite calls fs key store options later →
        (∃ error, (calls.writeFile (blockPath fs key) val (madeDisk calls fs key store)).1 =
          .error error) →
        ((calls.unlink (blockPath fs key) (writtenDisk calls fs key val store)).1 = .ok ⟨⟩ →
          held fs store (fromCidToString fs key) = none) ∧
        ((∃ error, (calls.unlink (blockPath fs key) (writtenDisk calls fs key val store)).1 =
          .error error) →
          (writtenDisk calls fs key val store).node (blockPath fs key) =
            held fs store (fromCidToString fs key))) := by
  simp only [← leftBehind_eq_iff]
  constructor
  · intro h hreaches hfails
    obtain ⟨error, hwrite⟩ := hfails
    exact leftBehind_of_failsAtomically htext h hreaches hwrite
  · intro hleft failure store' hput
    by_cases hreaches : ReachesWrite calls fs key store options later
    · cases hwrite : (calls.writeFile (blockPath fs key) val (madeDisk calls fs key store)).1 with
      | ok u =>
        rw [exec_putWith_written hreaches hwrite] at hput
        cases hput
      | error error =>
        obtain ⟨failure, hexec⟩ := exec_putWith_unwritten hreaches hwrite
        rw [hexec] at hput
        cases hput
        exact sameAnswers_unwritten htext (hleft hreaches ⟨error, hwrite⟩)
    · obtain ⟨failure, disk, hdisk, hexec⟩ := exec_putWith_early val hreaches
      rw [hexec] at hput
      cases hput
      exact sameAnswers_of_held rfl (held_early htext hdisk)

theorem put_failsAtomically_iff_emptyStore :
    FailsAtomically fullDisk twoCids false [1] none none emptyStore := by
  apply (put_failsAtomically_iff isCidText_twoCids).mpr
  intro _ _
  rw [← leftBehind_eq_iff, leftBehind_fullDisk, held_emptyStore (isCidText_twoCids false)]

def storedStore : Store where
  openState := .opened
  lruCache := Function.update emptyStore.lruCache (fromCidToString twoCids false) (some [1, 2])
  disk := withBlock twoCids emptyStore.disk (fromCidToString twoCids false) [1, 2]

/-- Stored again on a full disk, the block is lost. -/
theorem storedStore_not_failsAtomically :
    ¬FailsAtomically fullDisk twoCids false [1, 2] none none storedStore := by
  intro h
  have hkey := isCidText_twoCids false
  have hstored : Represents twoCids storedStore _ :=
    represents_emptyStore.withBlock hkey [1, 2]
  have hleft := leftBehind_of_failsAtomically isCidText_twoCids h (hstored.reachesWrite hkey) rfl
  rw [leftBehind_fullDisk, hstored.held_eq hkey, Function.update_self] at hleft
  cases hleft

end Result

end RandomArt.FsBlockstore
