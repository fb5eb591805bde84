import RandomArt.FsBlockstore

/-!
# The block store as a map

Read through its calls, the store is a map from the texts of CIDs to blocks, whatever the
cache holds or drops. Blocks keep apart on the disk because their paths give back the
text, and no block stands in the way of another because all lie at one depth.
-/

namespace RandomArt.FsBlockstore

open FileSystem Failing

variable {Cid : Type} (fs : Setup Cid)

section Paths

/-- Text that a block path is made of: more than six letters and digits. -/
structure IsCidText (s : String) : Prop where
  long : 6 < s.toList.length
  alphanumeric : ∀ c ∈ s.toList, c.isAlphanum = true

def pathNames (keyStr : String) : List String :=
  [slice keyStr (-6) (-4), slice keyStr (-4) (-2), sliceFrom keyStr (-2), slice keyStr 0 (-6)]

theorem isName_of_alphanumeric {name : String} (hne : name.toList ≠ [])
    (h : ∀ c ∈ name.toList, c.isAlphanum = true) : IsName name where
  ne_empty := by
    intro heq
    apply hne
    rw [heq, String.toList_empty]
  ne_dot := by
    intro heq
    rw [heq] at h
    exact absurd (h '.' (by decide)) (by decide)
  ne_dots := by
    intro heq
    rw [heq] at h
    exact absurd (h '.' (by decide)) (by decide)
  slash_notMem hslash := absurd (h '/' hslash) (by decide)

theorem position_neg (length k : ℕ) (hk : 0 < k) : position length (-k) = length - k := by
  rw [position, if_pos (by omega)]
  omega

theorem position_natCast (length k : ℕ) : position length k = min k length := by
  rw [position, if_neg (by omega), Int.toNat_natCast]

theorem toList_slice_neg (s : String) {k m : ℕ} (hk : 0 < k) (hm : 0 < m) :
    (slice s (-k) (-m)).toList =
      (s.toList.take (s.toList.length - m)).drop (s.toList.length - k) := by
  rw [slice, String.toList_ofList, position_neg _ _ hk, position_neg _ _ hm]

theorem toList_sliceFrom_neg (s : String) {k : ℕ} (hk : 0 < k) :
    (sliceFrom s (-k)).toList = s.toList.drop (s.toList.length - k) := by
  rw [sliceFrom, slice, String.toList_ofList, position_neg _ _ hk, position_natCast, Nat.min_self,
    List.take_length]

theorem toList_slice_zero (s : String) {m : ℕ} (hm : 0 < m) :
    (slice s 0 (-m)).toList = s.toList.take (s.toList.length - m) := by
  rw [slice, String.toList_ofList, position_neg _ _ hm]
  exact List.drop_zero

/-- The four names of a path, as runs of the text. -/
theorem toList_pathNames (s : String) :
    (pathNames s).map String.toList =
      [(s.toList.take (s.toList.length - 4)).drop (s.toList.length - 6),
        (s.toList.take (s.toList.length - 2)).drop (s.toList.length - 4),
        s.toList.drop (s.toList.length - 2),
        s.toList.take (s.toList.length - 6)] := by
  simp only [pathNames, List.map_cons, List.map_nil, List.cons.injEq, and_true]
  refine ⟨?_, ?_, ?_, ?_⟩
  · exact toList_slice_neg s (k := 6) (m := 4) (by omega) (by omega)
  · exact toList_slice_neg s (k := 4) (m := 2) (by omega) (by omega)
  · exact toList_sliceFrom_neg s (k := 2) (by omega)
  · exact toList_slice_zero s (m := 6) (by omega)

theorem isName_pathNames {keyStr : String} (h : IsCidText keyStr) :
    ∀ name ∈ pathNames keyStr, IsName name := by
  have hlong := h.long
  have hnames : ∀ chars ∈ (pathNames keyStr).map String.toList,
      chars ≠ [] ∧ ∀ c ∈ chars, c ∈ keyStr.toList := by
    rw [toList_pathNames]
    simp only [List.forall_mem_cons, List.not_mem_nil, false_imp_iff, implies_true, and_true,
      ← List.length_pos_iff, List.length_drop, List.length_take]
    refine ⟨⟨by omega, fun c hc => ?_⟩, ⟨by omega, fun c hc => ?_⟩, ⟨by omega, fun c hc => ?_⟩,
      ⟨by omega, fun c hc => ?_⟩⟩
    · exact List.mem_of_mem_take (List.mem_of_mem_drop hc)
    · exact List.mem_of_mem_take (List.mem_of_mem_drop hc)
    · exact List.mem_of_mem_drop hc
    · exact List.mem_of_mem_take hc
  intro name hname
  obtain ⟨hne, hsub⟩ := hnames _ (List.mem_map_of_mem hname)
  exact isName_of_alphanumeric hne fun c hc => h.alphanumeric c (hsub c hc)

theorem fromCidToPath_eq {keyStr : String} (h : IsCidText keyStr) :
    fromCidToPath fs keyStr = fs.rootPath ++ pathNames keyStr :=
  join_of_isName (isName_pathNames h) _

theorem length_fromCidToPath {keyStr : String} (h : IsCidText keyStr) :
    (fromCidToPath fs keyStr).length = fs.rootPath.length + 4 := by
  rw [fromCidToPath_eq fs h, List.length_append]
  rfl

theorem take_append_drop_take {α : Type} {l : List α} {a b : ℕ} (h : a ≤ b) :
    l.take a ++ (l.take b).drop a = l.take b := by
  calc l.take a ++ (l.take b).drop a = (l.take b).take a ++ (l.take b).drop a := by
        rw [List.take_take, Nat.min_eq_left h]
    _ = l.take b := List.take_append_drop a (l.take b)

/-- The names of a path give back the text they are cut from. -/
theorem pathNames_injective : Function.Injective pathNames := by
  intro s t h
  have hlists := congrArg (List.map String.toList) h
  rw [toList_pathNames, toList_pathNames] at hlists
  simp only [List.cons.injEq, and_true] at hlists
  obtain ⟨hsix, hfour, htwo, hrest⟩ := hlists
  have hjoin : ∀ l : List Char, l.take (l.length - 6) ++ (l.take (l.length - 4)).drop (l.length - 6)
      ++ (l.take (l.length - 2)).drop (l.length - 4) ++ l.drop (l.length - 2) = l := by
    intro l
    rw [take_append_drop_take (by omega), take_append_drop_take (by omega), List.take_append_drop]
  rw [← String.toList_inj, ← hjoin s.toList, ← hjoin t.toList, hsix, hfour, htwo, hrest]

/-- Different texts have different paths. -/
theorem fromCidToPath_inj {s t : String} (hs : IsCidText s) (ht : IsCidText t) :
    fromCidToPath fs s = fromCidToPath fs t ↔ s = t := by
  rw [fromCidToPath_eq fs hs, fromCidToPath_eq fs ht, List.append_cancel_left_eq]
  exact pathNames_injective.eq_iff

end Paths

section Answers

variable {fs}

/-- Whether a call may start. -/
def mayStart (openState : OpenState) (options : Option AbortOptions) : Except Failure PUnit :=
  if openState ≠ .opened then .error (.notOpen openState)
  else if options.bind AbortOptions.signal = some true then .error .operationCanceled
  else .ok ⟨⟩

theorem mayStart_opened {options : Option AbortOptions}
    (hlive : options.bind AbortOptions.signal ≠ some true) : mayStart .opened options = .ok ⟨⟩ := by
  rw [mayStart, if_neg (by simp), if_neg hlive]

theorem mayStart_aborted {options : Option AbortOptions}
    (haborted : options.bind AbortOptions.signal = some true) :
    mayStart .opened options = .error .operationCanceled := by
  rw [mayStart, if_neg (by simp), if_pos haborted]

theorem exec_assertIsOpen (options : Option AbortOptions) (store : Store) :
    exec (assertIsOpen options) store = (mayStart store.openState options, store) := by
  rw [assertIsOpen, exec_bind, Failing.exec_get, mayStart]
  simp only
  split_ifs <;> rfl

theorem exec_cacheFetch (k : String) (store : Store) :
    ∃ store', exec (cacheFetch fs k) store =
      (.ok ((store.lruCache k).or (fetchMethod fs k none store.disk)), store') := by
  rw [cacheFetch, exec_bind, Failing.exec_get]
  cases hcached : store.lruCache k with
  | some val =>
    simp only [hcached]
    exact ⟨store, rfl⟩
  | none =>
    simp only [hcached]
    cases fetchMethod fs k none store.disk <;> exact ⟨_, rfl⟩

theorem answer_get (key : Cid) (options : Option AbortOptions) (store : Store) :
    (exec (get fs key options) store).1 = mayStart store.openState options >>= fun _ =>
      ((store.lruCache (fromCidToString fs key)).or
        (fetchMethod fs (fromCidToString fs key) none store.disk)).elim
          (.error (.notFound (fromCidToString fs key))) .ok := by
  rw [get, exec_bind, exec_assertIsOpen]
  have hfetched : ∃ store', exec (cacheFetch fs (fromCidToString fs key)) store = (_, store') :=
    exec_cacheFetch _ store
  obtain ⟨store', hfetch⟩ := hfetched
  cases mayStart store.openState options with
  | error e => rfl
  | ok u =>
    simp only [exec_bind, hfetch]
    cases (store.lruCache (fromCidToString fs key)).or
      (fetchMethod fs (fromCidToString fs key) none store.disk) <;> rfl

theorem answer_has (key : Cid) (options : Option AbortOptions) (store : Store) :
    (exec (has fs key options) store).1 = mayStart store.openState options >>= fun _ =>
      .ok ((store.lruCache (fromCidToString fs key)).isSome ||
        (store.disk.stat (fromCidToPath fs (fromCidToString fs key))).isOk) := by
  rw [has, exec_bind, exec_assertIsOpen]
  cases mayStart store.openState options with
  | error e => rfl
  | ok u =>
    simp only [exec_bind, Failing.exec_get]
    cases store.lruCache (fromCidToString fs key) with
    | some val => rfl
    | none => cases store.disk.stat (fromCidToPath fs (fromCidToString fs key)) <;> rfl

end Answers

section BlockMap

/-- What the store is for: a block for each text of a CID. -/
abbrev BlockMap := String → Option Content

namespace BlockMap

def perform (blocks : BlockMap) (call : Call Cid) (options : Option AbortOptions) :
    Except Failure (Reply Cid) × BlockMap :=
  let cidStr := fromCidToString fs call.key
  if options.bind AbortOptions.signal = some true then (.error .operationCanceled, blocks)
  else
    match call with
    | .put key val => (.ok (.stored key), Function.update blocks cidStr (some val))
    | .get _ => ((blocks cidStr).elim (.error (.notFound cidStr)) (.ok ∘ .block), blocks)
    | .has _ => (.ok (.present (blocks cidStr).isSome), blocks)
    | .delete _ =>
      ((blocks cidStr).elim (.error (.fs .ENOENT)) fun _ => .ok .deleted,
        Function.update blocks cidStr none)

def run (blocks : BlockMap) : List (Event Cid) → List (Except Failure (Reply Cid)) × BlockMap
  | [] => ([], blocks)
  | .evict _ :: events => run blocks events
  | .call call options :: events =>
    let (outcome, blocks') := blocks.perform fs call options
    let (outcomes, blocks'') := run blocks' events
    (outcome :: outcomes, blocks'')

/-- A call leaves the blocks of all other CIDs as they are. -/
theorem perform_of_ne (blocks : BlockMap) (call : Call Cid) (options : Option AbortOptions)
    {cidStr : String} (hne : cidStr ≠ fromCidToString fs call.key) :
    (blocks.perform fs call options).2 cidStr = blocks cidStr := by
  simp only [perform]
  split_ifs with haborted
  · rfl
  · cases call with
    | put key val => exact Function.update_of_ne hne _ _
    | get key => rfl
    | has key => rfl
    | delete key => exact Function.update_of_ne hne _ _

end BlockMap

end BlockMap

section Simulation

/-- Nothing on the disk is in the way of a block. -/
def WellPlaced (disk : Disk) : Prop :=
  ∀ k, IsCidText k → disk.node (fromCidToPath fs k) ≠ some .dir ∧
    ∀ above, above <+: dirname (fromCidToPath fs k) → disk.isFile above = false

/-- The blocks on a disk. -/
def blocksOf (disk : Disk) : BlockMap := fun k => fetchMethod fs k none disk

/-- The store holds the blocks of the map; the cache may hold some of them. -/
structure Represents (store : Store) (blocks : BlockMap) : Prop where
  opened : store.openState = .opened
  placed : ∀ k, IsCidText k → ∀ above, above <+: dirname (fromCidToPath fs k) →
    store.disk.isFile above = false
  onDisk : ∀ k, IsCidText k →
    store.disk.node (fromCidToPath fs k) = (blocks k).map Node.file
  cached : ∀ k val, store.lruCache k = some val → blocks k = some val

variable {fs}

theorem represents_blocksOf {store : Store} (hopened : store.openState = .opened)
    (hplaced : WellPlaced fs store.disk)
    (hcached : ∀ k val, store.lruCache k = some val → blocksOf fs store.disk k = some val) :
    Represents fs store (blocksOf fs store.disk) where
  opened := hopened
  placed k hk := (hplaced k hk).2
  onDisk k hk := by
    have hnode := (hplaced k hk).1
    rw [blocksOf, fetchMethod, Disk.readFile]
    rcases hfound : store.disk.node (fromCidToPath fs k) with _ | _ | content
    · rfl
    · exact absurd hfound hnode
    · rfl
  cached := hcached

theorem Represents.evict {store : Store} {blocks : BlockMap} (h : Represents fs store blocks)
    (cidStr : String) : Represents fs (store.evict cidStr) blocks where
  opened := h.opened
  placed := h.placed
  onDisk := h.onDisk
  cached k val hval := by
    simp only [Store.evict, Function.update_apply] at hval
    split_ifs at hval
    exact h.cached k val hval

theorem exec_changing (change : Disk → Except FsError Disk) (store : Store) :
    exec (changing change) store =
      match change store.disk with
      | .ok disk => (.ok ⟨⟩, { store with disk })
      | .error error => (.error (.fs error), store) := by
  rw [changing, exec_bind, exec_get]
  simp only [exec_bind, exec_ofExcept]
  cases change store.disk <;> rfl

theorem not_prefix_dirname {k k' : String} (hk : IsCidText k) (hk' : IsCidText k') :
    ¬fromCidToPath fs k' <+: dirname (fromCidToPath fs k) := by
  intro h
  have hle := h.length_le
  rw [dirname, List.length_dropLast, length_fromCidToPath fs hk, length_fromCidToPath fs hk'] at hle
  omega

/-- The disk after the block has been written, with the directories above it. -/
def withBlock (fs : Setup Cid) (disk : Disk) (k : String) (val : Content) : Disk :=
  (disk.withDir (dirname (fromCidToPath fs k))).set (fromCidToPath fs k) (some (.file val))

theorem Represents.withBlock {store : Store} {blocks : BlockMap}
    (h : Represents fs store blocks) {k : String} (hk : IsCidText k) (val : Content) :
    Represents fs ⟨store.openState, Function.update store.lruCache k (some val),
      withBlock fs store.disk k val⟩ (Function.update blocks k (some val)) where
  opened := h.opened
  placed k' hk' above habove := by
    have hne : above ≠ fromCidToPath fs k := by
      intro heq
      rw [heq] at habove
      exact not_prefix_dirname hk' hk habove
    have hfile := h.placed k' hk' above habove
    rw [Disk.isFile] at hfile ⊢
    simp only [FsBlockstore.withBlock, Disk.node_set, if_neg hne, Disk.node_withDir]
    split_ifs
    · rfl
    · exact hfile
  onDisk k' hk' := by
    simp only [FsBlockstore.withBlock, Disk.node_set, Disk.node_withDir,
      fromCidToPath_inj fs hk' hk, if_neg (not_prefix_dirname hk hk'), Function.update_apply]
    split_ifs
    · rfl
    · exact h.onDisk k' hk'
  cached k' val' hval := by
    simp only [Function.update_apply] at hval ⊢
    split_ifs at hval ⊢
    · exact hval
    · exact h.cached k' val' hval

theorem Represents.withoutBlock {store : Store} {blocks : BlockMap}
    (h : Represents fs store blocks) {k : String} (hk : IsCidText k) :
    Represents fs ⟨store.openState, Function.update store.lruCache k none,
      store.disk.set (fromCidToPath fs k) none⟩ (Function.update blocks k none) where
  opened := h.opened
  placed k' hk' above habove := by
    have hfile := h.placed k' hk' above habove
    rw [Disk.isFile] at hfile ⊢
    simp only [Disk.node_set]
    split_ifs
    · rfl
    · exact hfile
  onDisk k' hk' := by
    simp only [Disk.node_set, fromCidToPath_inj fs hk' hk, Function.update_apply]
    split_ifs
    · rfl
    · exact h.onDisk k' hk'
  cached k' val hval := by
    simp only [Function.update_apply] at hval ⊢
    split_ifs at hval ⊢
    exact h.cached k' val hval

theorem Represents.cacheBlock {store : Store} {blocks : BlockMap}
    (h : Represents fs store blocks) {k : String} {val : Content} (hval : blocks k = some val) :
    Represents fs { store with lruCache := Function.update store.lruCache k (some val) }
      blocks where
  opened := h.opened
  placed := h.placed
  onDisk := h.onDisk
  cached k' val' hval' := by
    simp only [Function.update_apply] at hval'
    split_ifs at hval' with hkk
    · rw [hkk, hval, hval']
    · exact h.cached k' val' hval'

section Calls

variable {store : Store} {blocks : BlockMap} (h : Represents fs store blocks)
include h

theorem Represents.readFile {k : String} (hk : IsCidText k) :
    fetchMethod fs k none store.disk = blocks k := by
  rw [fetchMethod, Disk.readFile_eq (h.onDisk k hk)]
  cases blocks k <;> rfl

/-- What a fetch of the cache comes to. -/
theorem Represents.found {k : String} (hk : IsCidText k) :
    (store.lruCache k).or (fetchMethod fs k none store.disk) = blocks k := by
  cases hcached : store.lruCache k with
  | some val => rw [Option.some_or, h.cached k val hcached]
  | none => rw [Option.none_or, h.readFile hk]

theorem Represents.present {k : String} (hk : IsCidText k) :
    ((store.lruCache k).isSome || (store.disk.stat (fromCidToPath fs k)).isOk) =
      (blocks k).isSome := by
  rw [Disk.stat_eq (h.onDisk k hk)]
  cases hcached : store.lruCache k with
  | some val =>
    rw [h.cached k val hcached]
    rfl
  | none => cases blocks k <;> rfl

theorem exec_put {key : Cid} (hkey : IsCidText (fromCidToString fs key)) (val : Content)
    {options : Option AbortOptions} (hlive : options.bind AbortOptions.signal ≠ some true) :
    exec (put fs key val options) store =
      (.ok key, ⟨store.openState,
        Function.update store.lruCache (fromCidToString fs key) (some val),
        withBlock fs store.disk (fromCidToString fs key) val⟩) := by
  have hstart : mayStart store.openState options = .ok ⟨⟩ := by
    rw [h.opened, mayStart_opened hlive]
  have hwrite : (store.disk.withDir (dirname (fromCidToPath fs (fromCidToString fs key)))).writeFile
      (fromCidToPath fs (fromCidToString fs key)) val =
      .ok (withBlock fs store.disk (fromCidToString fs key) val) := by
    apply Disk.writeFile_eq_ok
    · rw [Disk.node_withDir, if_neg (not_prefix_dirname hkey hkey), h.onDisk _ hkey]
      cases blocks (fromCidToString fs key) <;> simp
    · rw [Disk.node_withDir, if_pos (List.prefix_refl _)]
  rw [put, exec_bind, exec_assertIsOpen, hstart]
  simp only [exec_bind, exec_changing, Disk.mkdir_eq_ok (h.placed _ hkey), exec_assertIsOpen,
    hstart]
  rw [exec_tryCatch]
  simp only [exec_bind, exec_changing, hwrite]
  rfl

theorem exec_get {key : Cid} (hkey : IsCidText (fromCidToString fs key))
    {options : Option AbortOptions} (hlive : options.bind AbortOptions.signal ≠ some true) :
    ∃ store', exec (get fs key options) store =
      ((blocks (fromCidToString fs key)).elim
        (.error (.notFound (fromCidToString fs key))) .ok, store') ∧
      Represents fs store' blocks := by
  have hfetch : ∃ store', exec (cacheFetch fs (fromCidToString fs key)) store =
      (.ok (blocks (fromCidToString fs key)), store') ∧ Represents fs store' blocks := by
    rw [cacheFetch, exec_bind, Failing.exec_get]
    cases hcached : store.lruCache (fromCidToString fs key) with
    | some val =>
      refine ⟨store, ?_, h⟩
      simp only [hcached, h.cached _ _ hcached]
      rfl
    | none =>
      simp only [hcached, h.readFile hkey]
      cases hblock : blocks (fromCidToString fs key) with
      | none => exact ⟨_, rfl, h.evict _⟩
      | some val => exact ⟨_, rfl, h.cacheBlock hblock⟩
  obtain ⟨store', hexec, hrepresents⟩ := hfetch
  refine ⟨store', ?_, hrepresents⟩
  rw [get, exec_bind, exec_assertIsOpen, h.opened, mayStart_opened hlive]
  simp only [exec_bind, hexec]
  cases blocks (fromCidToString fs key) <;> rfl

theorem exec_has {key : Cid} (hkey : IsCidText (fromCidToString fs key))
    {options : Option AbortOptions} (hlive : options.bind AbortOptions.signal ≠ some true) :
    exec (has fs key options) store = (.ok (blocks (fromCidToString fs key)).isSome, store) := by
  rw [has, exec_bind, exec_assertIsOpen, h.opened, mayStart_opened hlive]
  simp only [exec_bind, Failing.exec_get, Disk.stat_eq (h.onDisk _ hkey)]
  cases hcached : store.lruCache (fromCidToString fs key) with
  | some val =>
    rw [h.cached _ _ hcached]
    rfl
  | none => cases blocks (fromCidToString fs key) <;> rfl

theorem exec_delete {key : Cid} (hkey : IsCidText (fromCidToString fs key))
    {options : Option AbortOptions} (hlive : options.bind AbortOptions.signal ≠ some true) :
    ∃ store', exec (delete fs key options) store =
      ((blocks (fromCidToString fs key)).elim (.error (.fs .ENOENT)) fun _ => .ok ⟨⟩, store') ∧
      Represents fs store' (Function.update blocks (fromCidToString fs key) none) := by
  have hunlink := Disk.unlink_eq (h.onDisk _ hkey)
  rw [delete, exec_bind, exec_assertIsOpen, h.opened, mayStart_opened hlive]
  simp only [exec_bind, cacheDelete, exec_modify, exec_changing, hunlink]
  cases hblock : blocks (fromCidToString fs key) with
  | none =>
    have hsame : Function.update blocks (fromCidToString fs key) none = blocks := by
      rw [← hblock, Function.update_eq_self]
    rw [hsame]
    exact ⟨_, rfl, h.evict _⟩
  | some val => exact ⟨_, rfl, h.withoutBlock hkey⟩

/-- A call does to the store what it does to the map. -/
theorem exec_perform (call : Call Cid) (hkey : IsCidText (fromCidToString fs call.key))
    (options : Option AbortOptions) :
    ∃ store', exec (perform fs call options) store =
      ((blocks.perform fs call options).1, store') ∧
      Represents fs store' (blocks.perform fs call options).2 := by
  by_cases hlive : options.bind AbortOptions.signal = some true
  · refine ⟨store, ?_, ?_⟩
    · have hassert := exec_assertIsOpen options store
      rw [h.opened, mayStart_aborted hlive] at hassert
      simp only [BlockMap.perform, if_pos hlive]
      cases call with
      | put key val => simp only [perform, put, exec_bind, hassert]
      | get key => simp only [perform, get, exec_bind, hassert]
      | has key => simp only [perform, has, exec_bind, hassert]
      | delete key => simp only [perform, delete, exec_bind, hassert]
    · simp only [BlockMap.perform, if_pos hlive]
      exact h
  · simp only [BlockMap.perform, if_neg hlive]
    cases call with
    | put key val =>
      change IsCidText (fromCidToString fs key) at hkey
      refine ⟨_, ?_, h.withBlock hkey val⟩
      rw [perform, exec_bind, exec_put h hkey val hlive]
      rfl
    | get key =>
      change IsCidText (fromCidToString fs key) at hkey
      obtain ⟨store', hexec, hrepresents⟩ := exec_get h hkey hlive
      refine ⟨store', ?_, hrepresents⟩
      simp only [perform, exec_bind, hexec, Call.key]
      cases blocks (fromCidToString fs key) <;> rfl
    | has key =>
      change IsCidText (fromCidToString fs key) at hkey
      refine ⟨store, ?_, h⟩
      simp only [perform, exec_bind, exec_has h hkey hlive]
      rfl
    | delete key =>
      change IsCidText (fromCidToString fs key) at hkey
      obtain ⟨store', hexec, hrepresents⟩ := exec_delete h hkey hlive
      refine ⟨store', ?_, hrepresents⟩
      simp only [perform, exec_bind, hexec, Call.key]
      cases blocks (fromCidToString fs key) <;> rfl

end Calls

variable (htext : ∀ cid, IsCidText (fromCidToString fs cid))
include htext

/-- Over any run the store gives the outcomes of the map, and ends holding its blocks. -/
theorem run_eq {store : Store} {blocks : BlockMap} (h : Represents fs store blocks)
    (events : List (Event Cid)) :
    (run fs store events).1 = (blocks.run fs events).1 ∧
      Represents fs (run fs store events).2 (blocks.run fs events).2 := by
  induction events generalizing store blocks with
  | nil => exact ⟨rfl, h⟩
  | cons event events ih =>
    cases event with
    | evict cidStr => exact ih (h.evict cidStr)
    | call call options =>
      obtain ⟨store', hexec, hrepresents⟩ := exec_perform h call (htext call.key) options
      obtain ⟨houtcomes, hend⟩ := ih hrepresents
      simp only [run, hexec, BlockMap.run]
      exact ⟨by rw [houtcomes], hend⟩

/-- What can be asked about a block depends on that block of the map alone. -/
theorem answers_eq {store store' : Store} {blocks blocks' : BlockMap}
    (h : Represents fs store blocks) (h' : Represents fs store' blocks') (key : Cid)
    (hsame : blocks (fromCidToString fs key) = blocks' (fromCidToString fs key))
    (options : Option AbortOptions) :
    (exec (get fs key options) store).1 = (exec (get fs key options) store').1 ∧
      (exec (has fs key options) store).1 = (exec (has fs key options) store').1 := by
  rw [answer_get, answer_get, answer_has, answer_has, h.found (htext key), h'.found (htext key),
    h.present (htext key), h'.present (htext key), h.opened, h'.opened, hsame]
  exact ⟨rfl, rfl⟩

/-- An open store whose cache agrees with its disk answers every run of calls as the map of its
blocks does, a call on one CID changes no answer about another, and different texts have
different paths. -/
theorem refines_blockMap {store : Store} (hopened : store.openState = .opened)
    (hplaced : WellPlaced fs store.disk)
    (hcached : ∀ k val, store.lruCache k = some val → blocksOf fs store.disk k = some val)
    (events : List (Event Cid)) :
    (run fs store events).1 = ((blocksOf fs store.disk).run fs events).1 ∧
    (∀ call callOptions key options,
      fromCidToString fs key ≠ fromCidToString fs call.key →
      (exec (get fs key options)
          (exec (perform fs call callOptions) (run fs store events).2).2).1 =
        (exec (get fs key options) (run fs store events).2).1 ∧
      (exec (has fs key options)
          (exec (perform fs call callOptions) (run fs store events).2).2).1 =
        (exec (has fs key options) (run fs store events).2).1) ∧
    ∀ s t, IsCidText s → IsCidText t → fromCidToPath fs s = fromCidToPath fs t → s = t := by
  obtain ⟨houtcomes, hend⟩ := run_eq htext (represents_blocksOf hopened hplaced hcached) events
  refine ⟨houtcomes, ?_, fun s t hs ht => (fromCidToPath_inj fs hs ht).mp⟩
  intro call callOptions key options hne
  obtain ⟨store', hexec, hafter⟩ := exec_perform hend call (htext call.key) callOptions
  rw [hexec]
  exact answers_eq htext hafter hend key (BlockMap.perform_of_ne fs _ call callOptions hne) options

end Simulation

section Example

/-- Two CIDs, and a store that keeps its blocks in one directory. -/
def twoCids : Setup Bool where
  rootPath := ["blocks"]
  toBase58btc
    | false => some "QmYwAPJzv5CZsnA625s3Xf2nemtYgPpHdWEz79ojWKPbdG"
    | true => some "QmUNLLsPACCz1vLxQVkXqqLX5R1X345qqfHbsf67hvA3Nn"
  toText _ := ""

def emptyStore : Store where
  openState := .opened
  lruCache _ := none
  disk := Disk.withDir ⟨fun _ => none⟩ ["blocks"]

theorem isCidText_twoCids (cid : Bool) : IsCidText (fromCidToString twoCids cid) := by
  cases cid
  · exact ⟨by decide, List.all_eq_true.mp (by decide +kernel)⟩
  · exact ⟨by decide, List.all_eq_true.mp (by decide +kernel)⟩

theorem wellPlaced_emptyStore : WellPlaced twoCids emptyStore.disk := by
  intro k hk
  have hfile : ∀ path, emptyStore.disk.isFile path = false := by
    intro path
    rw [Disk.isFile, emptyStore, Disk.node_withDir]
    split_ifs <;> rfl
  refine ⟨?_, fun above _ => hfile above⟩
  rw [emptyStore, Disk.node_withDir, if_neg]
  · intro h
    cases h
  · intro hprefix
    have hle := hprefix.length_le
    rw [length_fromCidToPath twoCids hk] at hle
    exact absurd hle (by decide)

def storedAndDeleted : List (Event Bool) :=
  [.call (.put false [1, 2]) none, .evict "QmYwAPJzv5CZsnA625s3Xf2nemtYgPpHdWEz79ojWKPbdG",
    .call (.get false) none, .call (.has true) none, .call (.delete false) none,
    .call (.get false) none]

/-- A block that is stored, dropped from the cache, read back and deleted. -/
theorem refines_blockMap_storedAndDeleted :
    (run twoCids emptyStore storedAndDeleted).1 =
      [.ok (.stored false), .ok (.block [1, 2]), .ok (.present false), .ok .deleted,
        .error (.notFound "QmYwAPJzv5CZsnA625s3Xf2nemtYgPpHdWEz79ojWKPbdG")] :=
  (refines_blockMap isCidText_twoCids rfl wellPlaced_emptyStore (by intro k val h; cases h)
    storedAndDeleted).1.trans rfl

end Example

end RandomArt.FsBlockstore
