import Mathlib.Data.List.Nodup
import RtThread.Lib.Throughout
import Mathlib.Algebra.Group.Nat.Defs

/-! The open files over the vnodes of `dfs_file.c`, as a file system sees them: one vnode for each path that is open.
Then `dfs_ramfs.c`, and the calls of `dfs_file.c` that come to it. The allocations from the memory heap succeed or fail as
an action says. -/

set_option autoImplicit false
namespace RtThread.Dfs
open Lib

inductive FileType where
  | regular
  | directory
  | device
  deriving DecidableEq

/-- The flags of `open` that the file systems look at. -/
structure OpenFlags where
  creat : Bool := false
  wronly : Bool := false
  trunc : Bool := false
  append : Bool := false
  directory : Bool := false

/-- `struct dfs_vnode`, for a file system with nodes `N`. Its `ref_count` is the number of its users. -/
structure Vnode (N : Type) where
  type : FileType
  size : Nat
  data : N
  users : List Nat

/-- `struct dfs_file`, with the path of its vnode. -/
structure File (P : Type) where
  path : P
  pos : Nat

structure OpenFiles (P N : Type) where
  vnode : P → Option (Vnode N)
  file : Nat → Option (File P)

namespace OpenFiles

variable {P N : Type} [DecidableEq P]

def empty : OpenFiles P N where
  vnode _ := none
  file _ := none

def enter (t : OpenFiles P N) (h : Nat) (path : P) (type : FileType) (size : Nat) (data : N) (pos : Nat) : OpenFiles P N where
  vnode := Function.update t.vnode path (some { type, size, data, users := [h] })
  file := Function.update t.file h (some { path, pos })

def share (t : OpenFiles P N) (h : Nat) (path : P) (type : FileType) (v : Vnode N) : OpenFiles P N where
  vnode := Function.update t.vnode path (some { v with type, users := h :: v.users })
  file := Function.update t.file h (some { path, pos := 0 })

def leave (t : OpenFiles P N) (h : Nat) (path : P) (v : Vnode N) : OpenFiles P N where
  vnode := Function.update t.vnode path (if v.users = [h] then none else some { v with users := v.users.erase h })
  file := Function.update t.file h none

def setPos (t : OpenFiles P N) (h : Nat) (path : P) (pos : Nat) : OpenFiles P N :=
  { t with file := Function.update t.file h (some { path, pos }) }

def setSize (t : OpenFiles P N) (path : P) (v : Vnode N) (size : Nat) : OpenFiles P N :=
  { t with vnode := Function.update t.vnode path (some { v with size }) }

structure Tied (t : OpenFiles P N) : Prop where
  users : ∀ h path, (∃ f, t.file h = some f ∧ f.path = path) ↔ ∃ v, t.vnode path = some v ∧ h ∈ v.users
  nodup : ∀ path v, t.vnode path = some v → v.users.Nodup ∧ v.users ≠ []

variable {t : OpenFiles P N} {h : Nat} {path : P} {f : File P} {v : Vnode N}

omit [DecidableEq P] in
theorem Tied.empty : (empty : OpenFiles P N).Tied where
  users _ _ := iff_of_false (fun ⟨_, bad, _⟩ => Option.some_ne_none _ bad.symm) fun ⟨_, bad, _⟩ => Option.some_ne_none _ bad.symm
  nodup _ _ bad := (Option.some_ne_none _ bad.symm).elim

omit [DecidableEq P] in
theorem Tied.vnode (tied : t.Tied) (isOpen : t.file h = some f) : ∃ v, t.vnode f.path = some v ∧ h ∈ v.users :=
  (tied.users h f.path).mp ⟨f, isOpen, rfl⟩

section
variable (tied : t.Tied)
include tied

omit [DecidableEq P] in
theorem Tied.closed (closed : t.file h = none) (here : t.vnode path = some v) : h ∉ v.users := by
  intro inside
  obtain ⟨f, isOpen, _⟩ := (tied.users h path).mpr ⟨v, here, inside⟩
  exact Option.some_ne_none f (isOpen.symm.trans closed)

theorem Tied.set (h : Nat) (path : P) (newVnode : Option (Vnode N)) (newFile : Option (File P))
    (apart : ∀ f, t.file h = some f → f.path = path) (same : ∀ f ∈ newFile, f.path = path)
    (own : newFile.isSome ↔ ∃ v, newVnode = some v ∧ h ∈ v.users)
    (others : ∀ k, k ≠ h → ((∃ v, newVnode = some v ∧ k ∈ v.users) ↔ ∃ v, t.vnode path = some v ∧ k ∈ v.users))
    (nodup : ∀ v, newVnode = some v → v.users.Nodup ∧ v.users ≠ []) :
    Tied { vnode := Function.update t.vnode path newVnode, file := Function.update t.file h newFile } where
  users k p := by
    by_cases isH : k = h
    · rw [isH]
      simp only [Function.update_self]
      by_cases isPath : p = path
      · rw [isPath]
        simp only [Function.update_self]
        rw [← own]
        constructor
        · rintro ⟨f, isOpen, _⟩
          rw [isOpen]
          rfl
        · intro some
          obtain ⟨f, isOpen⟩ := Option.isSome_iff_exists.mp some
          exact ⟨f, isOpen, same f isOpen⟩
      · simp only [Function.update_of_ne isPath]
        rw [← tied.users h p]
        constructor
        · rintro ⟨f, isOpen, isP⟩
          exact absurd (isP.symm.trans (same f isOpen)) isPath
        · rintro ⟨f, isOpen, isP⟩
          exact absurd (isP.symm.trans (apart f isOpen)) isPath
    · simp only [Function.update_of_ne isH]
      rw [tied.users k p]
      by_cases isPath : p = path
      · rw [isPath]
        simp only [Function.update_self]
        exact (others k isH).symm
      · simp only [Function.update_of_ne isPath]
  nodup p v here := by
    by_cases isPath : p = path
    · rw [isPath] at here
      exact nodup v (by simpa using here)
    · exact tied.nodup p v (by simpa [Function.update_of_ne isPath] using here)

theorem Tied.enter (closed : t.file h = none) (fresh : t.vnode path = none) (type : FileType)
    (size : Nat) (data : N) (pos : Nat) : (t.enter h path type size data pos).Tied := by
  refine tied.set h path _ _ ?_ ?_ ?_ ?_ ?_
  · intro f isOpen
    exact (Option.some_ne_none f (isOpen.symm.trans closed)).elim
  · rintro f ⟨⟩
    rfl
  · simp
  · intro k other
    simp [fresh, other]
  · rintro v ⟨⟩
    simp

theorem Tied.share (closed : t.file h = none) (here : t.vnode path = some v) (type : FileType) :
    (t.share h path type v).Tied := by
  refine tied.set h path _ _ ?_ ?_ ?_ ?_ ?_
  · intro f isOpen
    exact (Option.some_ne_none f (isOpen.symm.trans closed)).elim
  · rintro f ⟨⟩
    rfl
  · simp
  · intro k other
    simp [here, other]
  · rintro u ⟨⟩
    exact ⟨List.nodup_cons.mpr ⟨tied.closed closed here, (tied.nodup path v here).1⟩, List.cons_ne_nil _ _⟩

theorem Tied.leave (isOpen : t.file h = some f) (here : t.vnode f.path = some v) :
    (t.leave h f.path v).Tied := by
  have nodup := (tied.nodup f.path v here).1
  have member : h ∈ v.users := by
    obtain ⟨u, isU, inside⟩ := tied.vnode isOpen
    rw [here, Option.some.injEq] at isU
    exact isU ▸ inside
  refine tied.set h f.path _ _ ?_ ?_ ?_ ?_ ?_
  · intro g isG
    rw [isOpen, Option.some.injEq] at isG
    rw [isG]
  · exact fun _ none => nomatch none
  · split
    · simp
    · simp [nodup.mem_erase_iff]
  · intro k other
    split
    case isTrue only => simp [here, only, other]
    case isFalse => simp [here, nodup.mem_erase_iff, other]
  · intro u isU
    split at isU
    case isTrue => cases isU
    case isFalse more =>
      cases isU
      refine ⟨nodup.sublist List.erase_sublist, fun none => more ?_⟩
      have one := List.length_erase_of_mem member
      rw [show v.users.erase h = [] from none, List.length_nil] at one
      have pos := List.length_pos_of_mem member
      obtain ⟨a, isA⟩ := List.length_eq_one_iff.mp (show v.users.length = 1 by omega)
      rw [isA] at member ⊢
      rw [List.mem_singleton.mp member]

theorem Tied.setPos (isOpen : t.file h = some f) (pos : Nat) : (t.setPos h f.path pos).Tied := by
  obtain ⟨v, here, inside⟩ := tied.vnode isOpen
  have kept : Function.update t.vnode f.path (some v) = t.vnode := by rw [← here, Function.update_eq_self]
  have set := tied.set h f.path (some v) (some { path := f.path, pos }) ?_ ?_ ?_ ?_ ?_
  · rwa [kept] at set
  · intro g isG
    rw [isOpen, Option.some.injEq] at isG
    rw [isG]
  · rintro g ⟨⟩
    rfl
  · simp [inside]
  · intro k _
    rw [here]
  · rintro u ⟨⟩
    exact tied.nodup f.path v here

theorem Tied.setSize (isOpen : t.file h = some f) (here : t.vnode f.path = some v) (size : Nat) :
    (t.setSize f.path v size).Tied := by
  obtain ⟨u, isU, inside⟩ := tied.vnode isOpen
  rw [here, Option.some.injEq] at isU
  have kept : Function.update t.file h (some f) = t.file := by rw [← isOpen, Function.update_eq_self]
  have set := tied.set h f.path (some { v with size }) (some f) ?_ ?_ ?_ ?_ ?_
  · rwa [kept] at set
  · intro g isG
    rw [isOpen, Option.some.injEq] at isG
    rw [isG]
  · rintro g ⟨⟩
    rfl
  · simp [isU, inside]
  · intro k _
    simp [here]
  · rintro w ⟨⟩
    exact tied.nodup f.path v here

end

end OpenFiles

/-! ## The file system in memory -/

def ramfsNameMax : Nat := 32

/-- A path below the mount point, as `dfs_subdir` cuts it from a normalised path: a slash, and the name behind it, which is
empty for the root. -/
structure RamPath where
  name : List Char
  first : name.head? ≠ some '/'
  short : name.length < ramfsNameMax
  deriving DecidableEq

def RamPath.text (path : RamPath) : List Char := '/' :: path.name

/-- `struct ramfs_dirent`; the bytes of `data` behind `size` are of no meaning. -/
structure RamfsDirent where
  name : List Char
  data : Nat → UInt8
  size : Nat

structure Ramfs where
  /-- The entries by their addresses; the root is entry 0. -/
  dirent : Nat → RamfsDirent
  /-- `root.list` -/
  list : List Nat
  /-- An address that has not been given out. -/
  fresh : Nat
  files : OpenFiles RamPath Nat
  /-- The heap has got a pointer that is not its own, or NULL has been read through. -/
  fault : Bool

inductive RamfsAction where
  | open (h : Nat) (path : RamPath) (flags : OpenFlags) (memory : Bool)
  | close (h : Nat)
  | read (h : Nat) (count : Nat)
  /-- `grown` is what the new bytes of a reallocated block hold. -/
  | write (h : Nat) (buf : List UInt8) (memory : Bool) (grown : Nat → UInt8)
  | lseek (h : Nat) (offset : Nat)
  | unlink (path : RamPath)
  | rename (oldpath newpath : RamPath)

inductive RamfsErrno where
  | enoent
  | enospc
  | enomem
  | eio
  | ebusy
  | eexist
  deriving DecidableEq

inductive RamfsResult where
  | ok (n : Nat)
  | bytes (buf : List UInt8)
  | failed (errno : RamfsErrno)
  deriving DecidableEq

namespace Ramfs

def setDirent (s : Ramfs) (id : Nat) (d : RamfsDirent) : Ramfs := { s with dirent := Function.update s.dirent id d }

/-- `while (*subpath == '/' && *subpath) subpath++` -/
def subpath (path : List Char) : List Char := path.dropWhile (· = '/')

def lookup (s : Ramfs) (path : List Char) : Option Nat :=
  if subpath path = [] then some 0 else s.list.find? fun id => (s.dirent id).name = subpath path

/-- The entry that `dfs_ramfs_open` creates. -/
def create (s : Ramfs) (path : List Char) : Ramfs :=
  { s with
    dirent := Function.update s.dirent s.fresh
      { name := (subpath path).take ramfsNameMax, data := fun _ => 0, size := 0 }
    list := s.fresh :: s.list
    fresh := s.fresh + 1 }

/-- The O_TRUNC of `dfs_ramfs_open` -/
def truncate (s : Ramfs) (id : Nat) : Ramfs := s.setDirent id { s.dirent id with data := fun _ => 0, size := 0 }

/-- `dfs_ramfs_open` for a new vnode: the entry, and the type of the vnode. -/
def ramfsOpen (s : Ramfs) (path : List Char) (flags : OpenFlags) (memory : Bool) :
    Except RamfsErrno (Ramfs × Nat × FileType) :=
  if flags.directory then
    if flags.creat then .error .enospc
    else
      match s.lookup path with
      | none => .error .enoent
      | some id => .ok (s, id, .directory)
  else
    match s.lookup path with
    | some id =>
      if id = 0 then .error .enoent
      else if flags.trunc then .ok (s.truncate id, id, .regular)
      else .ok (s, id, .regular)
    | none =>
      if flags.creat ∨ flags.wronly then
        if memory = false then .error .enomem
        -- the type of a file that is created
        else if flags.trunc then .ok ((s.create path).truncate s.fresh, s.fresh, .directory)
        else .ok (s.create path, s.fresh, .directory)
      else .error .enoent

/-- `dfs_file_open`: a vnode that is there is shared, and `dfs_ramfs_open` looks at its type only. -/
def fileOpen (s : Ramfs) (h : Nat) (path : RamPath) (flags : OpenFlags) (memory : Bool) : Ramfs × RamfsResult :=
  match s.files.vnode path with
  | some v =>
    if v.type = .directory ∧ flags.directory = false then (s, .failed .enoent)
    else ({ s with files := s.files.share h path (if flags.directory then .directory else v.type) v }, .ok 0)
  | none =>
    match s.ramfsOpen path.text flags memory with
    | .error errno => (s, .failed errno)
    | .ok (s, id, type) =>
      let size := (s.dirent id).size
      ({ s with files := s.files.enter h path type size id (if flags.append then size else 0) }, .ok 0)

def ramfsRead (s : Ramfs) (v : Vnode Nat) (pos count : Nat) : List UInt8 :=
  let length := if count < v.size - pos then count else v.size - pos
  (List.range length).map fun i => (s.dirent v.data).data (pos + i)

/-- `rt_memheap_realloc` to a larger block -/
def realloc (d : RamfsDirent) (size : Nat) (grown : Nat → UInt8) : RamfsDirent :=
  { d with data := fun i => if i < d.size then d.data i else grown i, size }

/-- `rt_memcpy(dirent->data + pos, buf, count)` -/
def copyIn (d : RamfsDirent) (pos : Nat) (buf : List UInt8) : RamfsDirent :=
  { d with data := fun i => if pos ≤ i ∧ i < pos + buf.length then buf.getD (i - pos) 0 else d.data i }

def ramfsWrite (s : Ramfs) (h : Nat) (path : RamPath) (v : Vnode Nat) (pos : Nat) (buf : List UInt8) (memory : Bool)
    (grown : Nat → UInt8) : Ramfs × RamfsResult :=
  let d := s.dirent v.data
  if v.size < buf.length + pos then
    if memory = false then (s, .ok 0)
    else
      let size := pos + buf.length
      let files := (s.files.setSize path v size).setPos h path (pos + buf.length)
      ({ s.setDirent v.data (copyIn (realloc d size grown) pos buf) with files }, .ok buf.length)
  else
    ({ s.setDirent v.data (copyIn d pos buf) with files := s.files.setPos h path (pos + buf.length) }, .ok buf.length)

/-- `dfs_file_unlink` and `dfs_ramfs_unlink` -/
def fileUnlink (s : Ramfs) (path : RamPath) : Ramfs × RamfsResult :=
  if (s.files.vnode path).isSome then (s, .failed .ebusy)
  else
    match s.lookup path.text with
    | none => (s, .failed .enoent)
    | some id =>
      -- the root is not in its own list: it is taken out, and the entries hang on nothing
      if id = 0 then ({ s with list := [], fault := true }, .ok 0)
      else ({ s with list := s.list.erase id }, .ok 0)

/-- `dfs_file_rename` and `dfs_ramfs_rename`: for the root `dfs_subdir` gives NULL, which the lookup reads through. -/
def fileRename (s : Ramfs) (oldpath newpath : RamPath) : Ramfs × RamfsResult :=
  if (s.files.vnode oldpath).isSome then (s, .failed .ebusy)
  else if newpath.name = [] then ({ s with fault := true }, .ok 0)
  else if (s.lookup newpath.text).isSome then (s, .failed .eexist)
  else if oldpath.name = [] then ({ s with fault := true }, .ok 0)
  else
    match s.lookup oldpath.text with
    | none => (s, .failed .enoent)
    | some id => (s.setDirent id { s.dirent id with name := newpath.text.take ramfsNameMax }, .ok 0)

def act (s : Ramfs) : RamfsAction → Option (Ramfs × RamfsResult)
  | .open h path flags memory => if s.files.file h = none then some (s.fileOpen h path flags memory) else none
  | .close h => do
    let f ← s.files.file h
    let v ← s.files.vnode f.path
    return ({ s with files := s.files.leave h f.path v }, .ok 0)
  | .read h count => do
    let f ← s.files.file h
    let v ← s.files.vnode f.path
    let buf := s.ramfsRead v f.pos count
    return ({ s with files := s.files.setPos h f.path (f.pos + buf.length) }, .bytes buf)
  | .write h buf memory grown => do
    let f ← s.files.file h
    let v ← s.files.vnode f.path
    return s.ramfsWrite h f.path v f.pos buf memory grown
  | .lseek h offset => do
    let f ← s.files.file h
    let v ← s.files.vnode f.path
    if offset ≤ v.size then return ({ s with files := s.files.setPos h f.path offset }, .ok offset)
    else return (s, .failed .eio)
  | .unlink path => some (s.fileUnlink path)
  | .rename oldpath newpath => some (s.fileRename oldpath newpath)

/-- `dfs_ramfs_create` -/
def init : Ramfs where
  dirent _ := { name := ['.'], data := fun _ => 0, size := 0 }
  list := []
  fresh := 1
  files := OpenFiles.empty
  fault := false

end Ramfs

end RtThread.Dfs
