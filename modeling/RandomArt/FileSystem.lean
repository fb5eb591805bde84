import Mathlib.Data.List.Infix
import Mathlib.Logic.Function.Basic

/-!
# A file system

A disk says for each path whether there is a directory or a file. Operations fail with
the code of the system call and leave the disk as it was.
-/

namespace RandomArt.FileSystem

/-- The names on the way from the root of the file system. -/
abbrev Path := List String

abbrev Content := List UInt8

inductive Node where
  | dir
  | file (content : Content)
  deriving DecidableEq

inductive FsError where
  | ENOENT
  | ENOTDIR
  | EISDIR
  | EEXIST
  deriving DecidableEq

section Paths

/-- What a name does to a path. -/
def enter (path : Path) (name : String) : Path :=
  if name = "" ∨ name = "." then path else if name = ".." then path.dropLast else path ++ [name]

/-- The names between the slashes. -/
def names (part : String) : List String := (part.toList.splitOn '/').map String.ofList

def join (root : Path) (parts : List String) : Path := (parts.flatMap names).foldl enter root

def dirname (path : Path) : Path := path.dropLast

/-- A part that names one entry of a directory. -/
structure IsName (name : String) : Prop where
  ne_empty : name ≠ ""
  ne_dot : name ≠ "."
  ne_dots : name ≠ ".."
  slash_notMem : '/' ∉ name.toList

theorem IsName.names_eq {name : String} (h : IsName name) : names name = [name] := by
  rw [names, List.splitOn_eq_singleton h.slash_notMem, List.map_singleton, String.ofList_toList]

theorem IsName.enter_eq {name : String} (h : IsName name) (path : Path) :
    enter path name = path ++ [name] := by
  rw [enter, if_neg (by simp [h.ne_empty, h.ne_dot]), if_neg h.ne_dots]

/-- Names are joined as they are. -/
theorem join_of_isName {parts : List String} (h : ∀ part ∈ parts, IsName part) (root : Path) :
    join root parts = root ++ parts := by
  rw [join]
  induction parts generalizing root with
  | nil => simp
  | cons part parts ih =>
    obtain ⟨hpart, hparts⟩ := List.forall_mem_cons.mp h
    rw [List.flatMap_cons, hpart.names_eq, List.singleton_append, List.foldl_cons,
      hpart.enter_eq, ih hparts, List.append_assoc, List.singleton_append]

end Paths

structure Disk where
  node : Path → Option Node

namespace Disk

variable (disk : Disk)

def isFile (path : Path) : Bool :=
  match disk.node path with
  | some (.file _) => true
  | _ => false

def set (path : Path) (node : Option Node) : Disk := ⟨Function.update disk.node path node⟩

/-- The disk with directories all the way to the path. -/
def withDir (path : Path) : Disk :=
  ⟨fun other => if other <+: path then some .dir else disk.node other⟩

/-- Make a directory with all directories above it. -/
def mkdir (path : Path) : Except FsError Disk :=
  if disk.isFile path then .error .EEXIST
  else if path.inits.any disk.isFile then .error .ENOTDIR
  else .ok (disk.withDir path)

/-- Make a file with the content, or replace the content of the file that is there. -/
def writeFile (path : Path) (content : Content) : Except FsError Disk :=
  match disk.node path, disk.node (dirname path) with
  | some .dir, _ => .error .EISDIR
  | _, some .dir => .ok (disk.set path (some (.file content)))
  | _, some (.file _) => .error .ENOTDIR
  | _, none => .error .ENOENT

def readFile (path : Path) : Except FsError Content :=
  match disk.node path with
  | some (.file content) => .ok content
  | some .dir => .error .EISDIR
  | none => .error .ENOENT

def stat (path : Path) : Except FsError Node :=
  match disk.node path with
  | some node => .ok node
  | none => .error .ENOENT

def unlink (path : Path) : Except FsError Disk :=
  match disk.node path with
  | some (.file _) => .ok (disk.set path none)
  | some .dir => .error .EISDIR
  | none => .error .ENOENT

variable {disk}

@[simp] theorem node_set (path other : Path) (node : Option Node) :
    (disk.set path node).node other = if other = path then node else disk.node other := by
  simp only [set, Function.update_apply]

theorem node_withDir (path other : Path) :
    (disk.withDir path).node other = if other <+: path then some .dir else disk.node other := rfl

/-- A directory can be made where no file stands in the way. -/
theorem mkdir_eq_ok {path : Path} (h : ∀ above, above <+: path → disk.isFile above = false) :
    disk.mkdir path = .ok (disk.withDir path) := by
  have hnone : path.inits.any disk.isFile = false := by
    rw [List.any_eq_false]
    intro above habove
    rw [h above ((List.mem_inits above path).mp habove)]
    exact Bool.false_ne_true
  rw [mkdir, h path (List.prefix_refl path), hnone]
  rfl

theorem writeFile_eq_ok {path : Path} (content : Content) (hnode : disk.node path ≠ some .dir)
    (hdir : disk.node (dirname path) = some .dir) :
    disk.writeFile path content = .ok (disk.set path (some (.file content))) := by
  unfold writeFile
  split <;> simp_all

theorem readFile_eq {path : Path} {content : Option Content}
    (h : disk.node path = content.map Node.file) :
    disk.readFile path = content.elim (.error .ENOENT) .ok := by
  rw [readFile, h]
  cases content <;> rfl

theorem stat_eq {path : Path} {content : Option Content}
    (h : disk.node path = content.map Node.file) :
    disk.stat path = content.elim (.error .ENOENT) fun content => .ok (.file content) := by
  rw [stat, h]
  cases content <;> rfl

theorem unlink_eq {path : Path} {content : Option Content}
    (h : disk.node path = content.map Node.file) :
    disk.unlink path = content.elim (.error .ENOENT) fun _ => .ok (disk.set path none) := by
  rw [unlink, h]
  cases content <;> rfl

/-- Making a directory leaves all files as they are. -/
theorem node_of_mkdir {disk' : Disk} {path other : Path} {content : Content}
    (h : disk.mkdir path = .ok disk') (hfile : disk.node other = some (.file content)) :
    disk'.node other = some (.file content) := by
  rw [mkdir] at h
  split_ifs at h with hpath hany
  cases h
  have hnot : ¬other <+: path := by
    intro hprefix
    apply hany
    rw [List.any_eq_true]
    exact ⟨other, (List.mem_inits other path).mpr hprefix, by rw [isFile, hfile]⟩
  rw [node_withDir, if_neg hnot, hfile]

theorem eq_set_of_writeFile {disk' : Disk} {path : Path} {content : Content}
    (h : disk.writeFile path content = .ok disk') :
    disk' = disk.set path (some (.file content)) := by
  unfold writeFile at h
  split at h <;> cases h
  rfl

theorem eq_set_of_unlink {disk' : Disk} {path : Path} (h : disk.unlink path = .ok disk') :
    disk' = disk.set path none := by
  unfold unlink at h
  split at h <;> cases h
  rfl

end Disk

end RandomArt.FileSystem
