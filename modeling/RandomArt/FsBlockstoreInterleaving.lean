import RandomArt.FsBlockstoreRefinement

/-!
# Interleaved calls of the block store

A call gives way to other calls wherever it awaits. Each call below is cut at its awaits: an
operation of the file system takes effect at one moment, and what follows it up to the next
await is run at a later one. A fetch of the cache runs beside the calls that wait for it, and
is given up when its entry is set, deleted or dropped.
-/

namespace RandomArt.FsBlockstore

open FileSystem Failing

/-- How far a call has come. -/
inductive Progress (Cid : Type) where
  | making (key : Cid) (val : Content)
  | writing (key : Cid) (val : Content)
  | written (key : Cid) (val : Content)
  | waiting (cidStr : String) (fetch : ℕ)
  | unlinking (key : Cid)
  | returned

/-- A fetch that a call has started, and what its fetch method has come to. -/
structure Fetch where
  startedBy : ℕ
  result : Option (Option Content)

/-- The store with the calls made so far, and the entries of its cache that are being fetched. -/
structure State (Cid : Type) where
  store : Store
  calls : ℕ → Option (Progress Cid)
  fetches : String → Option Fetch

inductive Action (Cid : Type) where
  | put (call : ℕ) (key : Cid) (val : Content)
  | get (call : ℕ) (key : Cid)
  | delete (call : ℕ) (key : Cid)
  | proceed (call : ℕ)
  | read (cidStr : String)
  | resolve (cidStr : String)
  | evict (cidStr : String)

variable {Cid : Type} (fs : Setup Cid)

namespace State

def dropFetch (state : State Cid) (cidStr : String) : State Cid :=
  { state with fetches := Function.update state.fetches cidStr none }

/-- Run a part of a call; a run in which an operation fails is not followed further. -/
def advance (state : State Cid) (call : ℕ) (part : Storing (Progress Cid)) : Option (State Cid) :=
  match exec part state.store with
  | (.ok progress, store) =>
    some { state with store, calls := Function.update state.calls call (some progress) }
  | (.error _, _) => none

end State

section Parts

def startPut (key : Cid) (val : Content) : Storing (Progress Cid) := do
  assertIsOpen none
  return .making key val

def makeDirectory (key : Cid) (val : Content) : Storing (Progress Cid) := do
  changing fun disk => disk.mkdir (dirname (fromCidToPath fs (fromCidToString fs key)))
  assertIsOpen none
  return .writing key val

def writeBlock (key : Cid) (val : Content) : Storing (Progress Cid) := do
  changing fun disk => disk.writeFile (fromCidToPath fs (fromCidToString fs key)) val
  return .written key val

def cacheBlock (key : Cid) (val : Content) : Storing (Progress Cid) := do
  cacheSet (fromCidToString fs key) val
  return .returned

def startDelete (key : Cid) : Storing (Progress Cid) := do
  assertIsOpen none
  cacheDelete (fromCidToString fs key)
  return .unlinking key

def unlinkBlock (key : Cid) : Storing (Progress Cid) := do
  changing fun disk => disk.unlink (fromCidToPath fs (fromCidToString fs key))
  return .returned

end Parts

/-- A call to `get` has its answer at once, or joins the fetch of its entry, or starts one. -/
def startGet (state : State Cid) (call : ℕ) (key : Cid) : Option (State Cid) :=
  let cidStr := fromCidToString fs key
  match state.store.lruCache cidStr, state.fetches cidStr with
  | some _, _ => state.advance call (do assertIsOpen none; return .returned)
  | none, some fetch =>
    state.advance call (do assertIsOpen none; return .waiting cidStr fetch.startedBy)
  | none, none =>
    { state with fetches := Function.update state.fetches cidStr (some ⟨call, none⟩) }.advance call
      (do assertIsOpen none; return .waiting cidStr call)

/-- What a call does when what it awaits is over. -/
def proceed (state : State Cid) (call : ℕ) : Option (State Cid) :=
  match state.calls call with
  | some (.making key val) => state.advance call (makeDirectory fs key val)
  | some (.writing key val) => state.advance call (writeBlock fs key val)
  | some (.written key val) =>
    (state.dropFetch (fromCidToString fs key)).advance call (cacheBlock fs key val)
  | some (.unlinking key) => state.advance call (unlinkBlock fs key)
  | some (.waiting cidStr fetch) =>
    if (state.fetches cidStr).map Fetch.startedBy = some fetch then none
    else state.advance call (pure .returned)
  | some .returned => none
  | none => none

def step (state : State Cid) : Action Cid → Option (State Cid)
  | .put call key val =>
    if (state.calls call).isSome then none else state.advance call (startPut key val)
  | .get call key => if (state.calls call).isSome then none else startGet fs state call key
  | .delete call key =>
    if (state.calls call).isSome then none
    else (state.dropFetch (fromCidToString fs key)).advance call (startDelete fs key)
  | .proceed call => proceed fs state call
  | .read cidStr =>
    match state.fetches cidStr with
    | some ⟨startedBy, none⟩ =>
      let result := fetchMethod fs cidStr none state.store.disk
      some { state with
        fetches := Function.update state.fetches cidStr (some ⟨startedBy, some result⟩) }
    | _ => none
  | .resolve cidStr =>
    match state.fetches cidStr with
    | some ⟨_, some result⟩ =>
      let lruCache := Function.update state.store.lruCache cidStr result
      some { state.dropFetch cidStr with store := { state.store with lruCache } }
    | _ => none
  | .evict cidStr =>
    some { state.dropFetch cidStr with store := state.store.evict cidStr }

/-- The state after a list of actions; none when one of them is not possible. -/
def runActions (state : State Cid) : List (Action Cid) → Option (State Cid)
  | [] => some state
  | action :: actions => (step fs state action).bind (runActions · actions)

section Coherence

def Quiescent (state : State Cid) : Prop :=
  ∀ call progress, state.calls call = some progress → progress = .returned

/-- Every cached block has its file with the cached content. -/
def Coherent (store : Store) : Prop :=
  ∀ k val, store.lruCache k = some val →
    store.disk.node (fromCidToPath fs k) = some (.file val)

/-- What the disk and the calls under way owe to a cached block: none of the calls still unlinks
it, and the file holds it, or holds what another put has yet to cache. -/
structure Backed (calls : ℕ → Option (Progress Cid)) (disk : Disk) (k : String) (val : Content) :
    Prop where
  notUnlinking : ∀ call key, calls call = some (.unlinking key) → fromCidToString fs key ≠ k
  content : disk.node (fromCidToPath fs k) = some (.file val) ∨
    ∃ call key val', calls call = some (.written key val') ∧ fromCidToString fs key = k ∧
      disk.node (fromCidToPath fs k) = some (.file val')

/-- An action that caches a block does so when the block is backed by what remains. -/
def CachesBacked (state : State Cid) : Action Cid → Prop
  | .proceed call => ∀ key val, state.calls call = some (.written key val) →
    Backed fs (Function.update state.calls call (some .returned)) state.store.disk
      (fromCidToString fs key) val
  | .resolve cidStr => ∀ startedBy val, state.fetches cidStr = some ⟨startedBy, some (some val)⟩ →
    Backed fs state.calls state.store.disk cidStr val
  | _ => True

def AllBacked (state : State Cid) : List (Action Cid) → Prop
  | [] => True
  | action :: actions => CachesBacked fs state action ∧
    ∀ state', step fs state action = some state' → AllBacked state' actions

structure Invariant (state : State Cid) : Prop where
  fetchText : ∀ k fetch, state.fetches k = some fetch → IsCidText k
  cacheText : ∀ k val, state.store.lruCache k = some val → IsCidText k
  backed : ∀ k val, state.store.lruCache k = some val →
    Backed fs state.calls state.store.disk k val

variable {fs}

theorem advance_eq_some {state state' : State Cid} {call : ℕ} {part : Storing (Progress Cid)}
    (h : state.advance call part = some state') :
    ∃ progress store, exec part state.store = (.ok progress, store) ∧
      state' = { state with store, calls := Function.update state.calls call (some progress) } := by
  rw [State.advance] at h
  rcases hexec : exec part state.store with ⟨result, store⟩
  rw [hexec] at h
  cases result with
  | error e => cases h
  | ok progress =>
    cases h
    exact ⟨progress, store, rfl, rfl⟩

theorem exec_assertIsOpen_ok {options : Option AbortOptions} {store store' : Store}
    (h : exec (assertIsOpen options) store = (.ok ⟨⟩, store')) : store' = store := by
  rw [exec_assertIsOpen] at h
  exact (Prod.mk.inj h).2.symm

theorem exec_changing_ok {change : Disk → Except FsError Disk} {store store' : Store}
    (h : exec (changing change) store = (.ok ⟨⟩, store')) :
    ∃ disk, change store.disk = .ok disk ∧ store' = { store with disk } := by
  rw [exec_changing] at h
  cases hchange : change store.disk with
  | error e =>
    rw [hchange] at h
    cases h
  | ok disk =>
    rw [hchange] at h
    cases h
    exact ⟨disk, rfl, rfl⟩

/-- A call that comes further, and a disk that keeps the file, still back a block, unless the
call now unlinks the block or has just cached it. -/
theorem Backed.advance {calls : ℕ → Option (Progress Cid)} {disk disk' : Disk} {k : String}
    {val : Content} (h : Backed fs calls disk k val) {call : ℕ} {progress : Progress Cid}
    (hunlinking : ∀ key, progress = .unlinking key → fromCidToString fs key ≠ k)
    (hwritten : ∀ key val, calls call = some (.written key val) → fromCidToString fs key ≠ k)
    (hfile : ∀ content, disk.node (fromCidToPath fs k) = some (.file content) →
      disk'.node (fromCidToPath fs k) = some (.file content)) :
    Backed fs (Function.update calls call (some progress)) disk' k val where
  notUnlinking other key hother := by
    by_cases heq : other = call
    · subst heq
      rw [Function.update_self, Option.some.injEq] at hother
      exact hunlinking key hother
    · rw [Function.update_of_ne heq] at hother
      exact h.notUnlinking other key hother
  content := by
    rcases h.content with hcontent | ⟨other, key, val', hother, hkey, hcontent⟩
    · exact .inl (hfile val hcontent)
    · refine .inr ⟨other, key, val', ?_, hkey, hfile val' hcontent⟩
      have hne : other ≠ call := by
        rintro rfl
        exact hwritten key val' hother hkey
      rw [Function.update_of_ne hne, hother]

section Steps

variable {state : State Cid} (h : Invariant fs state)
include h

theorem Invariant.advance {call : ℕ} {progress : Progress Cid} (disk : Disk)
    (hunlinking : ∀ key, progress ≠ .unlinking key)
    (hwritten : ∀ key val, state.calls call ≠ some (.written key val))
    (hfile : ∀ k content, state.store.disk.node (fromCidToPath fs k) = some (.file content) →
      disk.node (fromCidToPath fs k) = some (.file content)) :
    Invariant fs { state with
      store := { state.store with disk }
      calls := Function.update state.calls call (some progress) } where
  fetchText := h.fetchText
  cacheText := h.cacheText
  backed k val hval := (h.backed k val hval).advance (fun key heq => absurd heq (hunlinking key))
    (fun key val' heq => absurd heq (hwritten key val')) (hfile k)

theorem Invariant.dropFetch (cidStr : String) : Invariant fs (state.dropFetch cidStr) where
  fetchText k fetch hfetch := by
    simp only [State.dropFetch, Function.update_apply] at hfetch
    split_ifs at hfetch
    exact h.fetchText k fetch hfetch
  cacheText := h.cacheText
  backed := h.backed

theorem Invariant.evict (cidStr : String) :
    Invariant fs { state.dropFetch cidStr with store := state.store.evict cidStr } where
  fetchText := (h.dropFetch cidStr).fetchText
  cacheText k val hval := by
    simp only [Store.evict, Function.update_apply] at hval
    split_ifs at hval
    exact h.cacheText k val hval
  backed k val hval := by
    simp only [Store.evict, Function.update_apply] at hval
    split_ifs at hval
    exact h.backed k val hval

theorem Invariant.advance_assertIsOpen {call : ℕ} {progress : Progress Cid} {state' : State Cid}
    (hunlinking : ∀ key, progress ≠ .unlinking key)
    (hwritten : ∀ key val, state.calls call ≠ some (.written key val))
    (hstep : state.advance call (do assertIsOpen none; return progress) = some state') :
    Invariant fs state' := by
  obtain ⟨_, store, hexec, rfl⟩ := advance_eq_some hstep
  obtain ⟨_, store₁, hassert, hexec⟩ := exec_bind_ok hexec
  cases exec_assertIsOpen_ok hassert
  cases hexec
  exact h.advance state.store.disk hunlinking hwritten fun _ _ hfile => hfile

theorem Invariant.startPut {call : ℕ} {key : Cid} {val : Content} {state' : State Cid}
    (hidle : state.calls call = none)
    (hstep : state.advance call (FsBlockstore.startPut key val) = some state') :
    Invariant fs state' :=
  h.advance_assertIsOpen (fun _ heq => by cases heq) (by simp [hidle]) hstep

theorem Invariant.makeDirectory {call : ℕ} {key : Cid} {val : Content} {state' : State Cid}
    (hcall : state.calls call = some (.making key val))
    (hstep : state.advance call (FsBlockstore.makeDirectory fs key val) = some state') :
    Invariant fs state' := by
  obtain ⟨progress, store, hexec, rfl⟩ := advance_eq_some hstep
  obtain ⟨_, store₁, hchange, hexec⟩ := exec_bind_ok hexec
  obtain ⟨disk, hmkdir, rfl⟩ := exec_changing_ok hchange
  obtain ⟨_, store₂, hassert, hexec⟩ := exec_bind_ok hexec
  cases exec_assertIsOpen_ok hassert
  cases hexec
  exact h.advance disk (fun _ => by simp) (by simp [hcall])
    fun _ _ hfile => Disk.node_of_mkdir hmkdir hfile

/-- The new content of the file is that of a put that has yet to cache it. -/
theorem Invariant.writeBlock {call : ℕ} {key : Cid} {val : Content} {state' : State Cid}
    (hkey : IsCidText (fromCidToString fs key))
    (hcall : state.calls call = some (.writing key val))
    (hstep : state.advance call (FsBlockstore.writeBlock fs key val) = some state') :
    Invariant fs state' := by
  obtain ⟨progress, store, hexec, rfl⟩ := advance_eq_some hstep
  obtain ⟨_, store₁, hchange, hexec⟩ := exec_bind_ok hexec
  obtain ⟨disk, hwrite, rfl⟩ := exec_changing_ok hchange
  cases hexec
  cases Disk.eq_set_of_writeFile hwrite
  refine ⟨h.fetchText, h.cacheText, fun k val' hval => ?_⟩
  have hk := h.cacheText k val' hval
  have hbacked := h.backed k val' hval
  by_cases heq : fromCidToString fs key = k
  · subst heq
    refine ⟨fun other key' hother => ?_, .inr ⟨call, key, val, Function.update_self _ _ _, rfl, ?_⟩⟩
    · simp only [Function.update_apply] at hother
      split_ifs at hother
      · cases hother
      · exact hbacked.notUnlinking other key' hother
    · rw [Disk.node_set, if_pos rfl]
  · refine hbacked.advance (fun _ heq' => by cases heq') (by simp [hcall]) fun content hfile => ?_
    rw [Disk.node_set, if_neg, hfile]
    rwa [fromCidToPath_inj fs hk hkey, eq_comm]

theorem Invariant.cacheBlock {call : ℕ} {key : Cid} {val : Content} {state' : State Cid}
    (hkey : IsCidText (fromCidToString fs key))
    (hcall : state.calls call = some (.written key val))
    (hbacked : Backed fs (Function.update state.calls call (some .returned)) state.store.disk
      (fromCidToString fs key) val)
    (hstep : (state.dropFetch (fromCidToString fs key)).advance call
      (FsBlockstore.cacheBlock fs key val) = some state') :
    Invariant fs state' := by
  obtain ⟨progress, store, hexec, rfl⟩ := advance_eq_some hstep
  cases hexec
  refine ⟨(h.dropFetch _).fetchText, fun k val' hval => ?_, fun k val' hval => ?_⟩
  · simp only [Function.update_apply] at hval
    split_ifs at hval with heq
    · rwa [heq]
    · exact h.cacheText k val' hval
  · simp only [Function.update_apply] at hval
    split_ifs at hval with heq
    · cases hval
      rw [heq]
      exact hbacked
    · refine (h.backed k val' hval).advance (fun _ heq' => by cases heq') ?_ fun _ hfile => hfile
      intro key' val'' hother
      rw [hcall] at hother
      cases hother
      exact fun heq' => heq heq'.symm

theorem Invariant.startDelete {call : ℕ} {key : Cid} {state' : State Cid}
    (hidle : state.calls call = none)
    (hstep : (state.dropFetch (fromCidToString fs key)).advance call
      (FsBlockstore.startDelete fs key) = some state') :
    Invariant fs state' := by
  obtain ⟨progress, store, hexec, rfl⟩ := advance_eq_some hstep
  obtain ⟨_, store₁, hassert, hexec⟩ := exec_bind_ok hexec
  cases exec_assertIsOpen_ok hassert
  cases hexec
  have hevict := h.evict (fromCidToString fs key)
  refine ⟨hevict.fetchText, hevict.cacheText, fun k val hval => ?_⟩
  refine (hevict.backed k val hval).advance ?_ (by simp [State.dropFetch, hidle])
    fun _ hfile => hfile
  rintro key' heq rfl
  cases heq
  simp [State.dropFetch] at hval

/-- A block that is still to be unlinked is not in the cache. -/
theorem Invariant.unlinkBlock {call : ℕ} {key : Cid} {state' : State Cid}
    (hkey : IsCidText (fromCidToString fs key))
    (hcall : state.calls call = some (.unlinking key))
    (hstep : state.advance call (FsBlockstore.unlinkBlock fs key) = some state') :
    Invariant fs state' := by
  obtain ⟨progress, store, hexec, rfl⟩ := advance_eq_some hstep
  obtain ⟨_, store₁, hchange, hexec⟩ := exec_bind_ok hexec
  obtain ⟨disk, hunlink, rfl⟩ := exec_changing_ok hchange
  cases hexec
  cases Disk.eq_set_of_unlink hunlink
  refine ⟨h.fetchText, h.cacheText, fun k val hval => ?_⟩
  have hk := h.cacheText k val hval
  have hbacked := h.backed k val hval
  refine hbacked.advance (fun _ heq => by cases heq) (by simp [hcall]) fun content hfile => ?_
  rw [Disk.node_set, if_neg, hfile]
  rw [fromCidToPath_inj fs hk hkey]
  exact fun heq => hbacked.notUnlinking call key hcall heq.symm

theorem Invariant.setFetch {k : String} (hk : IsCidText k) (fetch : Fetch) :
    Invariant fs { state with fetches := Function.update state.fetches k (some fetch) } where
  fetchText k' fetch' hfetch := by
    simp only [Function.update_apply] at hfetch
    split_ifs at hfetch with heq
    · rwa [heq]
    · exact h.fetchText k' fetch' hfetch
  cacheText := h.cacheText
  backed := h.backed

theorem Invariant.startGet {call : ℕ} {key : Cid} {state' : State Cid}
    (hkey : IsCidText (fromCidToString fs key)) (hidle : state.calls call = none)
    (hstep : FsBlockstore.startGet fs state call key = some state') : Invariant fs state' := by
  unfold FsBlockstore.startGet at hstep
  simp only at hstep
  split at hstep
  · exact h.advance_assertIsOpen (fun _ heq => by cases heq) (by simp [hidle]) hstep
  · exact h.advance_assertIsOpen (fun _ heq => by cases heq) (by simp [hidle]) hstep
  · exact (h.setFetch hkey _).advance_assertIsOpen (fun _ heq => by cases heq) (by simp [hidle])
      hstep

theorem Invariant.resolve {k : String} (hk : IsCidText k) (result : Option Content)
    (hbacked : ∀ val, result = some val → Backed fs state.calls state.store.disk k val) :
    Invariant fs { state.dropFetch k with
      store := { state.store with
        lruCache := Function.update state.store.lruCache k result } } where
  fetchText := (h.dropFetch k).fetchText
  cacheText k' val hval := by
    simp only [Function.update_apply] at hval
    split_ifs at hval with heq
    · rwa [heq]
    · exact h.cacheText k' val hval
  backed k' val hval := by
    simp only [Function.update_apply] at hval
    split_ifs at hval with heq
    · rw [heq]
      exact hbacked val hval
    · exact h.backed k' val hval

theorem Invariant.proceed (htext : ∀ cid, IsCidText (fromCidToString fs cid)) {call : ℕ}
    {state' : State Cid} (hbacked : CachesBacked fs state (.proceed call))
    (hstep : FsBlockstore.proceed fs state call = some state') : Invariant fs state' := by
  unfold FsBlockstore.proceed at hstep
  split at hstep
  · exact h.makeDirectory ‹_› hstep
  · exact h.writeBlock (htext _) ‹_› hstep
  · exact h.cacheBlock (htext _) ‹_› (hbacked _ _ ‹_›) hstep
  · exact h.unlinkBlock (htext _) ‹_› hstep
  · next cidStr fetch hcall =>
    split_ifs at hstep
    obtain ⟨progress, store, hexec, rfl⟩ := advance_eq_some hstep
    cases hexec
    exact h.advance state.store.disk (fun _ heq => by cases heq) (by simp [hcall])
      fun _ _ hfile => hfile
  · cases hstep
  · cases hstep

/-- One action keeps all cached blocks backed when it caches none that is not. -/
theorem Invariant.step (htext : ∀ cid, IsCidText (fromCidToString fs cid)) {action : Action Cid}
    {state' : State Cid} (hbacked : CachesBacked fs state action)
    (hstep : FsBlockstore.step fs state action = some state') : Invariant fs state' := by
  unfold FsBlockstore.step at hstep
  cases action with
  | put call key val =>
    simp only at hstep
    split_ifs at hstep with hidle
    exact h.startPut (by simpa using hidle) hstep
  | get call key =>
    simp only at hstep
    split_ifs at hstep with hidle
    exact h.startGet (htext key) (by simpa using hidle) hstep
  | delete call key =>
    simp only at hstep
    split_ifs at hstep with hidle
    exact h.startDelete (by simpa using hidle) hstep
  | proceed call => exact h.proceed htext hbacked hstep
  | read cidStr =>
    simp only at hstep
    split at hstep
    · next startedBy hfetch =>
      cases hstep
      exact h.setFetch (h.fetchText cidStr _ hfetch) _
    · cases hstep
  | resolve cidStr =>
    simp only at hstep
    split at hstep
    · next startedBy result hfetch =>
      cases hstep
      apply h.resolve (h.fetchText cidStr _ hfetch)
      rintro val rfl
      exact hbacked startedBy val hfetch
    · cases hstep
  | evict cidStr =>
    cases hstep
    exact h.evict cidStr

/-- All cached blocks stay backed over a run whose actions cache backed blocks only. -/
theorem Invariant.runActions (htext : ∀ cid, IsCidText (fromCidToString fs cid))
    {actions : List (Action Cid)} {state' : State Cid} (hbacked : AllBacked fs state actions)
    (hrun : FsBlockstore.runActions fs state actions = some state') : Invariant fs state' := by
  induction actions generalizing state with
  | nil =>
    cases hrun
    exact h
  | cons action actions ih =>
    obtain ⟨next, hstep, hrun⟩ := Option.bind_eq_some_iff.mp hrun
    exact ih (h.step htext hbacked.1 hstep) (hbacked.2 next hstep) hrun

theorem Invariant.coherent (hquiescent : Quiescent state) : Coherent fs state.store := by
  intro k val hval
  rcases (h.backed k val hval).content with hcontent | ⟨call, key, val', hcall, -⟩
  · exact hcontent
  · exact absurd (hquiescent call _ hcall) (fun heq => by cases heq)

end Steps

section Eviction

theorem answers_evict {store : Store} (h : Coherent fs store) (cidStr : String) (key : Cid)
    (options : Option AbortOptions) :
    (exec (get fs key options) (store.evict cidStr)).1 = (exec (get fs key options) store).1 ∧
      (exec (has fs key options) (store.evict cidStr)).1 =
        (exec (has fs key options) store).1 := by
  rw [answer_get, answer_get, answer_has, answer_has]
  by_cases heq : fromCidToString fs key = cidStr
  · subst heq
    simp only [Store.evict, Function.update_self]
    cases hcached : store.lruCache (fromCidToString fs key) with
    | none => exact ⟨rfl, rfl⟩
    | some val =>
      have hnode := h _ val hcached
      have hfetch : fetchMethod fs (fromCidToString fs key) none store.disk = some val := by
        rw [fetchMethod, Disk.readFile, hnode]
      have hstat : store.disk.stat (fromCidToPath fs (fromCidToString fs key)) =
          .ok (.file val) := by
        rw [Disk.stat, hnode]
      rw [hfetch, hstat]
      exact ⟨rfl, rfl⟩
  · have hsame : (store.evict cidStr).lruCache (fromCidToString fs key) =
        store.lruCache (fromCidToString fs key) := Function.update_of_ne heq _ _
    rw [hsame]
    exact ⟨rfl, rfl⟩

end Eviction

def State.start (store : Store) : State Cid := ⟨store, fun _ => none, fun _ => none⟩

variable (htext : ∀ cid, IsCidText (fromCidToString fs cid))
include htext

/-- Over every run whose actions cache backed blocks only, cache and disk agree whenever no call
is under way, so that dropping an entry changes no answer. -/
theorem coherent_of_allBacked {store : Store} (hcoherent : Coherent fs store)
    (hcached : ∀ k val, store.lruCache k = some val → IsCidText k) {actions : List (Action Cid)}
    {state : State Cid} (hrun : runActions fs (State.start store) actions = some state)
    (hbacked : AllBacked fs (State.start store) actions) (hquiescent : Quiescent state) :
    Coherent fs state.store ∧ ∀ cidStr key options,
      (exec (get fs key options) (state.store.evict cidStr)).1 =
        (exec (get fs key options) state.store).1 ∧
      (exec (has fs key options) (state.store.evict cidStr)).1 =
        (exec (has fs key options) state.store).1 := by
  have hstart : Invariant fs (State.start store : State Cid) := by
    refine ⟨fun k fetch hfetch => ?_, hcached, fun k val hval => ⟨fun call key hcall => ?_, ?_⟩⟩
    · cases hfetch
    · cases hcall
    · exact .inl (hcoherent k val hval)
  have hend := (hstart.runActions htext hbacked hrun).coherent hquiescent
  exact ⟨hend, answers_evict hend⟩

end Coherence

section Alone

variable {fs}

/-- The parts of a put, one after another, are the put. -/
theorem put_alone {state state' : State Cid} {call : ℕ} {key : Cid} {val : Content}
    (hrun : runActions fs state [.put call key val, .proceed call, .proceed call, .proceed call] =
      some state') :
    exec (put fs key val none) state.store = (.ok key, state'.store) := by
  simp only [runActions, Option.bind_eq_some_iff] at hrun
  obtain ⟨s₁, hstart, s₂, hmake, s₃, hwrite, s₄, hcache, hend⟩ := hrun
  cases hend
  simp only [step] at hstart
  split_ifs at hstart
  obtain ⟨progress, store, hexec, rfl⟩ := advance_eq_some hstart
  obtain ⟨_, store₁, hassert, hexec⟩ := exec_bind_ok hexec
  cases exec_assertIsOpen_ok hassert
  cases hexec
  simp only [step, proceed, Function.update_self] at hmake
  obtain ⟨progress, store, hexec, rfl⟩ := advance_eq_some hmake
  obtain ⟨_, store₁, hmkdir, hexec⟩ := exec_bind_ok hexec
  obtain ⟨_, store₂, hassert', hexec⟩ := exec_bind_ok hexec
  cases exec_assertIsOpen_ok hassert'
  cases hexec
  simp only [step, proceed, Function.update_self] at hwrite
  obtain ⟨progress, store₃, hexec, rfl⟩ := advance_eq_some hwrite
  obtain ⟨_, store₄, hwritten, hexec⟩ := exec_bind_ok hexec
  cases hexec
  simp only [step, proceed, Function.update_self] at hcache
  obtain ⟨progress, store₅, hexec, rfl⟩ := advance_eq_some hcache
  cases hexec
  rw [put, exec_bind, hassert]
  simp only [exec_bind, hmkdir, hassert']
  rw [exec_tryCatch]
  simp only [exec_bind, hwritten]
  rfl

theorem delete_alone {state state' : State Cid} {call : ℕ} {key : Cid}
    (hrun : runActions fs state [.delete call key, .proceed call] = some state') :
    exec (delete fs key none) state.store = (.ok ⟨⟩, state'.store) := by
  simp only [runActions, Option.bind_eq_some_iff] at hrun
  obtain ⟨s₁, hstart, s₂, hunlink, hend⟩ := hrun
  cases hend
  simp only [step] at hstart
  split_ifs at hstart
  obtain ⟨progress, store, hexec, rfl⟩ := advance_eq_some hstart
  obtain ⟨_, store₁, hassert, hexec⟩ := exec_bind_ok hexec
  cases exec_assertIsOpen_ok hassert
  cases hexec
  simp only [step, proceed, Function.update_self] at hunlink
  obtain ⟨progress, store₂, hexec, rfl⟩ := advance_eq_some hunlink
  obtain ⟨_, store₃, hunlinked, hexec⟩ := exec_bind_ok hexec
  cases hexec
  simp only [State.dropFetch] at hassert
  rw [delete, exec_bind, hassert]
  simp only [exec_bind, cacheDelete, exec_modify]
  exact hunlinked

/-- A get that starts a fetch and waits for it leaves the store as the get does. -/
theorem get_alone {state state' : State Cid} {call : ℕ} {key : Cid}
    (hmiss : state.store.lruCache (fromCidToString fs key) = none)
    (hfetch : state.fetches (fromCidToString fs key) = none)
    (hrun : runActions fs state [.get call key, .read (fromCidToString fs key),
      .resolve (fromCidToString fs key), .proceed call] = some state') :
    (exec (get fs key none) state.store).2 = state'.store := by
  simp only [runActions, Option.bind_eq_some_iff] at hrun
  obtain ⟨s₁, hstart, s₂, hread, s₃, hresolve, s₄, hreturn, hend⟩ := hrun
  cases hend
  simp only [step, startGet, hmiss, hfetch] at hstart
  split_ifs at hstart
  obtain ⟨progress, store, hexec, rfl⟩ := advance_eq_some hstart
  obtain ⟨_, store₁, hassert, hexec⟩ := exec_bind_ok hexec
  cases exec_assertIsOpen_ok hassert
  cases hexec
  simp only [step, Function.update_self, Option.some.injEq] at hread
  subst hread
  simp only [step, Function.update_self, Option.some.injEq] at hresolve
  subst hresolve
  simp only [step, proceed, State.dropFetch, Function.update_self, Option.map_none,
    reduceCtorEq, if_false] at hreturn
  obtain ⟨progress, store₂, hexec, rfl⟩ := advance_eq_some hreturn
  cases hexec
  simp only at hassert
  rw [get, exec_bind, hassert]
  simp only [exec_bind, cacheFetch, Failing.exec_get, hmiss]
  cases fetchMethod fs (fromCidToString fs key) none state.store.disk <;> rfl

end Alone

section Example

variable {fs}

/-- A run that leaves a block in the cache that an eviction makes disappear. -/
def LeavesStale (actions : List (Action Bool)) : Prop :=
  ∃ state, runActions twoCids (State.start emptyStore) actions = some state ∧ Quiescent state ∧
    ¬Coherent twoCids state.store ∧
    (exec (has twoCids false none) state.store).1 = .ok true ∧
    (exec (has twoCids false none)
      (state.store.evict (fromCidToString twoCids false))).1 = .ok false

def deletedBeforeCached : List (Action Bool) :=
  [.put 0 false [1], .proceed 0, .proceed 0, .delete 1 false, .proceed 1, .proceed 0]

def readBeforeUnlinked : List (Action Bool) :=
  [.put 0 false [1], .proceed 0, .proceed 0, .proceed 0, .delete 1 false, .get 2 false,
    .read (fromCidToString twoCids false), .proceed 1, .resolve (fromCidToString twoCids false),
    .proceed 2]

theorem deleted_blocks_stay_cached :
    LeavesStale deletedBeforeCached ∧ LeavesStale readBeforeUnlinked := by
  constructor
  · refine ⟨_, rfl, ?_, ?_, rfl, rfl⟩
    · intro call progress hcall
      rcases call with _ | _ | call
      · cases hcall
        rfl
      · cases hcall
        rfl
      · cases hcall
    · intro h
      have hfile := h (fromCidToString twoCids false) [1] rfl
      cases hfile
  · refine ⟨_, rfl, ?_, ?_, rfl, rfl⟩
    · intro call progress hcall
      rcases call with _ | _ | _ | call
      · cases hcall
        rfl
      · cases hcall
        rfl
      · cases hcall
        rfl
      · cases hcall
    · intro h
      have hfile := h (fromCidToString twoCids false) [1] rfl
      cases hfile

theorem AllBacked.cons {state next : State Cid} {action : Action Cid} {actions : List (Action Cid)}
    (hbacked : CachesBacked fs state action) (hstep : step fs state action = some next)
    (hrest : AllBacked fs next actions) : AllBacked fs state (action :: actions) := by
  refine ⟨hbacked, fun state' hstep' => ?_⟩
  cases hstep.symm.trans hstep'
  exact hrest

/-- A put of a block that is being deleted: the file is unlinked before it is written again. -/
def putAroundDelete : List (Action Bool) :=
  [.put 0 false [1], .proceed 0, .proceed 0, .proceed 0, .delete 1 false, .put 2 false [2],
    .proceed 2, .proceed 1, .proceed 2, .proceed 2]

theorem allBacked_putAroundDelete :
    AllBacked twoCids (State.start emptyStore) putAroundDelete := by
  refine .cons trivial rfl ?_
  refine .cons (fun key val hcall => by cases hcall) rfl ?_
  refine .cons (fun key val hcall => by cases hcall) rfl ?_
  refine .cons ?_ rfl ?_
  · intro key val hcall
    cases hcall
    refine ⟨fun call key hother => ?_, .inl rfl⟩
    rcases call with _ | call <;> cases hother
  refine .cons trivial rfl ?_
  refine .cons trivial rfl ?_
  refine .cons (fun key val hcall => by cases hcall) rfl ?_
  refine .cons (fun key val hcall => by cases hcall) rfl ?_
  refine .cons (fun key val hcall => by cases hcall) rfl ?_
  refine .cons ?_ rfl trivial
  -- By now the delete has unlinked what the first put had written.
  intro key val hcall
  cases hcall
  refine ⟨fun call key hother => ?_, .inl rfl⟩
  rcases call with _ | _ | _ | call <;> cases hother

theorem coherent_of_allBacked_putAroundDelete :
    ∃ state, runActions twoCids (State.start emptyStore) putAroundDelete = some state ∧
      state.store.lruCache (fromCidToString twoCids false) = some [2] ∧
      Coherent twoCids state.store := by
  have hempty : ∀ k val, emptyStore.lruCache k ≠ some val := by
    intro k val hval
    cases hval
  refine ⟨_, rfl, rfl, ?_⟩
  refine (coherent_of_allBacked isCidText_twoCids (fun k val hval => absurd hval (hempty k val))
    (fun k val hval => absurd hval (hempty k val)) rfl allBacked_putAroundDelete ?_).1
  intro call progress hcall
  rcases call with _ | _ | _ | call <;> cases hcall
  · rfl
  · rfl
  · rfl

end Example

end RandomArt.FsBlockstore
