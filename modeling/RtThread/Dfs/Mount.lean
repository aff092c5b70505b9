import RtThread.Dfs.Path
import RtThread.Lib.Throughout

/-! The mount table of `dfs_fs.c`. What the code outside of it answers in a call (the devices, the file systems, the
allocator, `dfs_file_open`) is a value of `Around`. -/

set_option autoImplicit false
namespace RtThread.Dfs
open Lib

/-- `struct dfs_filesystem_ops`: the name, and which of the operations are not NULL. -/
structure FilesystemOps where
  name : List Char
  mount : Bool
  unmount : Bool
  deriving DecidableEq

/-- `fs->data`: the name of the type, until the file system puts its own data there. -/
inductive FsData where
  | typeName (name : List Char)
  | own (data : Nat)
  deriving DecidableEq

/-- `struct dfs_filesystem` -/
structure Filesystem where
  devId : Option Nat
  path : Option (List Char)
  ops : Option FilesystemOps
  data : Option FsData
  deriving DecidableEq

/-- `rt_memset(fs, 0, sizeof(struct dfs_filesystem))` -/
def Filesystem.zero : Filesystem where
  devId := none
  path := none
  ops := none
  data := none

inductive Errno where
  | enodev
  | enosys
  | enotdir
  | einval
  | enospc
  deriving DecidableEq

inductive CallResult where
  | ok
  | failed (errno : Option Errno)
  deriving DecidableEq

structure Around where
  /-- The working directory, with DFS_USING_WORKDIR. -/
  directory : Option Directory
  /-- The string of `dfs_normalize_path` is allocated. -/
  memory : Bool
  deviceFind : List Char → Option Nat
  operationTable : List (Option FilesystemOps)
  /-- `dfs_file_open` of the path with O_RDONLY | O_DIRECTORY -/
  isDirectory : List Char → Bool
  deviceOpen : Nat → Bool
  /-- `ops->mount(fs, rwflag, data)`: if it succeeds, the `fs->data` that it leaves. -/
  mount : Filesystem → Option (Option FsData)
  /-- `ops->unmount(fs)` succeeds. -/
  unmount : Filesystem → Bool

structure MountArgs where
  deviceName : Option (List Char)
  path : List Char
  filesystemtype : List Char

/-- `strncmp(a, b, n) == 0` -/
def strncmpEq (a b : List Char) (n : Nat) : Prop := a.take n = b.take n

instance (a b : List Char) (n : Nat) : Decidable (strncmpEq a b n) := inferInstanceAs (Decidable (_ = _))

abbrev FilesystemTable := List Filesystem

/-- The loop of `dfs_filesystem_lookup`, from entry `i` on. -/
def lookupLoop (path : List Char) : FilesystemTable → Nat → Option Nat → Nat → Option Nat
  | [], _, fs, _ => fs
  | iter :: rest, i, fs, prefixlen =>
    match iter.path, iter.ops with
    | some iterPath, some _ =>
      let fspath := iterPath.length
      if fspath < prefixlen ∨ ¬strncmpEq iterPath path fspath then lookupLoop path rest (i + 1) fs prefixlen
      else if 1 < fspath ∧ fspath < path.length ∧ path[fspath]? ≠ some '/' then lookupLoop path rest (i + 1) fs prefixlen
      else lookupLoop path rest (i + 1) (some i) fspath
    | _, _ => lookupLoop path rest (i + 1) fs prefixlen

def dfsFilesystemLookup (table : FilesystemTable) (path : List Char) : Option Nat := lookupLoop path table 0 none 0

namespace Around

def normalizePath (env : Around) (path : List Char) : Option (List Char) :=
  if env.memory then dfsNormalizePath env.directory path else none

def device (env : Around) : Option (List Char) → Option (Option Nat)
  | none => some none
  | some name => (env.deviceFind name).map some

def findOps (env : Around) (filesystemtype : List Char) : Option FilesystemOps :=
  env.operationTable.findSome? fun ops => ops.filter fun ops => strncmpEq ops.name filesystemtype ops.name.length

end Around

/-- The loop of `dfs_mount`, from entry `i` on: the first empty entry, if the path is not mounted. -/
def findEntry (path : List Char) : FilesystemTable → Nat → Option Nat → Option (Option Nat)
  | [], _, fs => some fs
  | iter :: rest, i, fs =>
    if iter.ops = none then findEntry path rest (i + 1) (if fs = none then some i else fs)
    else if iter.path = some path then none
    else findEntry path rest (i + 1) fs

/-- The entry as `dfs_mount` registers it. -/
def registered (devId : Option Nat) (fullpath : List Char) (ops : FilesystemOps) (filesystemtype : List Char) :
    Filesystem where
  devId := devId
  path := some fullpath
  ops := some ops
  data := some (.typeName filesystemtype)

/-- What `dfs_mount` does from the claim of entry `i` on. -/
def mountEntry (env : Around) (table : FilesystemTable) (i : Nat) (fs : Filesystem) : CallResult × FilesystemTable :=
  let table := table.set i fs
  if ∃ dev ∈ fs.devId, env.deviceOpen dev = false then (.failed none, table.set i .zero)
  else
    match env.mount fs with
    | none => (.failed none, table.set i .zero)
    | some data => (.ok, table.set i { fs with data })

def dfsMount (env : Around) (args : MountArgs) (table : FilesystemTable) : CallResult × FilesystemTable :=
  match env.device args.deviceName with
  | none => (.failed (some .enodev), table)
  | some devId =>
    match env.findOps args.filesystemtype with
    | none => (.failed (some .enodev), table)
    | some ops =>
      if ops.mount = false then (.failed (some .enosys), table)
      else
        match env.normalizePath args.path with
        | none => (.failed (some .enotdir), table)
        | some fullpath =>
          if fullpath ≠ ['/'] ∧ fullpath ≠ ['/', 'd', 'e', 'v'] ∧ env.isDirectory fullpath = false then
            (.failed (some .enotdir), table)
          else
            match findEntry args.path table 0 none with
            | none => (.failed (some .einval), table)
            | some none => (.failed (some .enospc), table)
            | some (some i) => mountEntry env table i (registered devId fullpath ops args.filesystemtype)

def dfsUnmount (env : Around) (specialfile : List Char) (table : FilesystemTable) : CallResult × FilesystemTable :=
  match env.normalizePath specialfile with
  | none => (.failed (some .enotdir), table)
  | some fullpath =>
    match table.findIdx? fun iter => iter.path = some fullpath with
    | none => (.failed none, table)
    | some i =>
      let fs := table.getD i .zero
      if (∀ ops ∈ fs.ops, ops.unmount = false) ∨ env.unmount fs = false then (.failed none, table)
      else (.ok, table.set i .zero)

inductive MountCall where
  | mount (env : Around) (args : MountArgs)
  | unmount (env : Around) (specialfile : List Char)

def MountCall.act : MountCall → FilesystemTable → CallResult × FilesystemTable
  | .mount env args, table => dfsMount env args table
  | .unmount env specialfile, table => dfsUnmount env specialfile table

def mountStep (table : FilesystemTable) (call : MountCall) (next : FilesystemTable) : Prop := (call.act table).2 = next

end RtThread.Dfs
