import RtThread.Dfs.Rewriting
import Mathlib.Data.List.Find

/-! The names of tmpfs and the buffers that they are copied through. A write outside its buffer is a fault. -/

set_option autoImplicit false
namespace RtThread.Dfs.Tmpfs
open Lib

def tmpfsNameMax : Nat := 32

def dfsPathMax : Nat := 256

/-- `struct tmpfs_file`: the field `name` with all its characters, and the entries of a directory. -/
structure TmpfsFile where
  name : List Char
  subdirs : List Nat

/-- `root` is at 0, and from `next` on there are no files. -/
structure TmpfsSb where
  files : Nat → TmpfsFile
  next : Nat

/-- Characters that are written one by one to `buf`, from an index on. -/
def writeFrom (buf : List Char) (i : Nat) : List Char → Option (List Char)
  | [] => some buf
  | c :: text => if i < buf.length then writeFrom (buf.set i c) (i + 1) text else none

def getSubdir (path name : List Char) : Option (List Char) := writeFrom name 0 ((skipSlashes path).takeWhile (· ≠ '/'))

section lookup
variable (sb : TmpfsSb)

/-- The entry that `rt_strcmp` finds. -/
def entry (file : Nat) (name : List Char) : Option Nat :=
  (sb.files file).subdirs.find? fun i => cString (sb.files i).name = name

/-- The code from `find_subpath` on, with a bound on the number of components. -/
def findSubpath : Nat → Nat → List Char → Option (Option Nat)
  | 0, _, _ => none
  | turns + 1, curfile, curpath =>
    (getSubdir curpath (List.replicate tmpfsNameMax nul)).bind fun subdirName =>
      match curpath.dropWhile (· ≠ '/') with
      | [] => some (entry sb curfile curpath)
      | _ :: subpath =>
        match entry sb curfile (cString subdirName) with
        | none => some none
        | some file => findSubpath turns file subpath

def dfsTmpfsLookup (path : List Char) : Option (Option Nat) :=
  if skipSlashes path = [] then some (some 0) else findSubpath sb (path.length + 1) 0 (skipSlashes path)

end lookup

/-- The loop at `__next_dir`: what is in front of the last component, and this. -/
def nextDir : Nat → List Char → List Char → Option (List Char × List Char)
  | 0, _, _ => none
  | turns + 1, front, path =>
    if path.takeWhile (· ≠ '/') = [] then none
    else
      match path.dropWhile (· ≠ '/') with
      | [] => some (front, path)
      | _ :: rest => nextDir turns (front ++ path.takeWhile (· ≠ '/') ++ ['/']) rest

def rootParent (parentPath : List Char) : Option (List Char) :=
  if parentPath.head? = some nul then writeFrom parentPath 0 ['/', nul] else some parentPath

/-- `_path_separate`, with what the buffers hold before. -/
def pathSeparate (path parentPath fileName : List Char) : Option (List Char × List Char) :=
  (writeFrom fileName 0 [nul]).bind fun fileName =>
    match nextDir path.length ['/'] path.tail with
    | none => (rootParent parentPath).map (·, fileName)
    | some (front, name) =>
      (writeFrom parentPath 0 (front.dropLast ++ [nul])).bind fun parentPath =>
        (writeFrom fileName 0 (name ++ [nul])).bind fun fileName => (rootParent parentPath).map (·, fileName)

/-- `strncpy` into a name. -/
def strncpy (src : List Char) : List Char :=
  let text := (cString src).take tmpfsNameMax
  text ++ List.replicate (tmpfsNameMax - text.length) nul

/-- The buffers on the stack of a caller, with anything in them. -/
structure Buffers where
  parentPath : List Char
  fileName : List Char
  parentSize : parentPath.length = dfsPathMax
  fileSize : fileName.length = tmpfsNameMax

namespace TmpfsSb
variable (sb : TmpfsSb)

/-- `rt_list_insert_after(&(p_file->subdirs), &(d_file->sibling))` -/
def link (parent file : Nat) : TmpfsSb :=
  { sb with files :=
    Function.update sb.files parent { sb.files parent with subdirs := file :: (sb.files parent).subdirs } }

def rename (file : Nat) (name : List Char) : TmpfsSb :=
  { sb with files := Function.update sb.files file { sb.files file with name := name } }

/-- `rt_list_remove(&(d_file->sibling))` -/
def unlink (file : Nat) : TmpfsSb :=
  { sb with files := fun i => { sb.files i with subdirs := (sb.files i).subdirs.filter (· ≠ file) } }

/-- The new file with its name. -/
def create (name : List Char) : TmpfsSb := ⟨Function.update sb.files sb.next ⟨name, []⟩, sb.next + 1⟩

/-- The file that `dfs_tmpfs_open` has found or created. -/
def dfsTmpfsOpen (bufs : Buffers) (path : List Char) (creat memory : Bool) : Option (TmpfsSb × Option Nat) :=
  (dfsTmpfsLookup sb path).bind fun
    | some file => some (sb, some file)
    | none =>
      if creat then
        (pathSeparate path bufs.parentPath bufs.fileName).bind fun (parentPath, fileName) =>
          if fileName.head? = some nul then some (sb, none)
          else
            (dfsTmpfsLookup sb (cString parentPath)).map fun
              | none => (sb, none)
              | some parent =>
                if memory then ((sb.create (strncpy fileName)).link parent sb.next, some sb.next) else (sb, none)
      else some (sb, none)

/-- Without the parent the assertion fails, and nothing is changed. -/
def dfsTmpfsRename (bufs : Buffers) (oldpath newpath : List Char) : Option TmpfsSb :=
  (dfsTmpfsLookup sb newpath).bind fun
    | some _ => some sb
    | none =>
      (dfsTmpfsLookup sb oldpath).bind fun
        | none => some sb
        | some file =>
          (pathSeparate newpath bufs.parentPath bufs.fileName).bind fun (parentPath, fileName) =>
            if fileName.head? = some nul then some sb
            else
              (dfsTmpfsLookup sb (cString parentPath)).map fun
                | none => sb
                | some parent => ((sb.unlink file).rename file (strncpy fileName)).link parent file

/-- Every name ends inside its field, and the entries are files. -/
structure Sound : Prop where
  root : 0 < sb.next
  size : ∀ i, (sb.files i).name.length = tmpfsNameMax
  ends : ∀ i, nul ∈ (sb.files i).name
  entries : ∀ i, ∀ j ∈ (sb.files i).subdirs, j < sb.next

/-- Where the components lead. -/
def walk (cur : Nat) : List (List Char) → Option Nat
  | [] => some cur
  | name :: names => (entry sb cur name).bind fun file => walk file names

/-- The components up to the first that is not found have at most `most` characters. -/
def Fits (cur : Nat) : List (List Char) → Prop
  | [] => True
  | name :: names => name.length ≤ tmpfsNameMax ∧ ∀ file, entry sb cur name = some file → Fits file names

end TmpfsSb

/-- A normalised path. -/
structure TmpfsPath where
  names : List (List Char)
  plain : Plain names
  noNul : ∀ name ∈ names, nul ∉ name
  short : (absolute '/' names).length < dfsPathMax

def TmpfsPath.text (path : TmpfsPath) : List Char := absolute '/' path.names

/-! ## The buffers -/

theorem writeFrom_eq (front rest text : List Char) :
    writeFrom (front ++ rest) front.length text =
      if text.length ≤ rest.length then some (front ++ text ++ rest.drop text.length) else none := by
  induction text generalizing front rest with
  | nil => simp [writeFrom]
  | cons c text ih =>
    cases rest with
    | nil => simp [writeFrom]
    | cons d rest =>
      have next := ih (front ++ [c]) rest
      rw [List.length_append, List.length_singleton] at next
      rw [writeFrom, if_pos (by simp), show (front ++ d :: rest).set front.length c = front ++ [c] ++ rest by simp, next]
      simp

theorem write_eq (buf text : List Char) :
    writeFrom buf 0 text = if text.length ≤ buf.length then some (text ++ buf.drop text.length) else none :=
  writeFrom_eq [] buf text

section names
variable {name : List Char} {names : List (List Char)} (isName : IsName '/' name)
include isName

theorem cut_name (names : List (List Char)) :
    (name ++ joined '/' names).takeWhile (· ≠ '/') = name ∧
      (name ++ joined '/' names).dropWhile (· ≠ '/') = joined '/' names := by
  have pass : ∀ c ∈ name, decide (c ≠ '/') = true := fun c inside => by
    simpa using fun same : c = '/' => isName.noSep (same ▸ inside)
  rw [List.takeWhile_append_of_pos pass, List.dropWhile_append_of_pos pass]
  cases names <;> simp

theorem skip_name (names : List (List Char)) : skipSlashes (name ++ joined '/' names) = name ++ joined '/' names := by
  obtain ⟨c, rest, rfl⟩ := List.exists_cons_of_ne_nil isName.ne_nil
  have other : c ≠ '/' := fun same => isName.noSep (by simp [same])
  rw [skipSlashes, List.cons_append, List.dropWhile_cons_of_neg (by simpa using other)]

theorem getSubdir_name (names : List (List Char)) :
    getSubdir (name ++ joined '/' names) (List.replicate tmpfsNameMax nul) =
      if name.length ≤ tmpfsNameMax then some (name ++ List.replicate (tmpfsNameMax - name.length) nul) else none := by
  rw [getSubdir, skip_name isName, (cut_name isName names).1, write_eq, List.length_replicate, List.drop_replicate]

end names

theorem cString_padded {text : List Char} (free : nul ∉ text) (n : Nat) : cString (text ++ List.replicate n nul) = text := by
  cases n with
  | zero => 
    rw [List.replicate_zero, List.append_nil, cString, List.takeWhile_eq_self_iff]
    exact fun c inside => by simpa using fun same : c = nul => free (same ▸ inside)
  | succ n => exact cString_eq free _

theorem findSubpath_iff {sb : TmpfsSb} {turns cur : Nat} {name : List Char} {names : List (List Char)} {found : Option Nat}
    (all : ∀ other ∈ name :: names, IsName '/' other) (free : ∀ other ∈ name :: names, nul ∉ other)
    (enough : names.length < turns) :
    findSubpath sb turns cur (name ++ joined '/' names) = some found ↔
      sb.Fits cur (name :: names) ∧ sb.walk cur (name :: names) = found := by
  induction names generalizing name cur turns with
  | nil =>
    obtain ⟨turns, rfl⟩ := Nat.exists_eq_add_of_lt enough
    have isName := all name List.mem_cons_self
    rw [findSubpath, getSubdir_name isName, (cut_name isName []).2]
    by_cases fits : name.length ≤ tmpfsNameMax <;> simp [TmpfsSb.Fits, TmpfsSb.walk, fits]
  | cons next names ih =>
    obtain ⟨turns, rfl⟩ := Nat.exists_eq_add_of_lt enough
    have isName := all name List.mem_cons_self
    rw [findSubpath, getSubdir_name isName, (cut_name isName _).2, TmpfsSb.Fits, TmpfsSb.walk]
    by_cases fits : name.length ≤ tmpfsNameMax
    · rw [if_pos fits, Option.bind_some, cString_padded (free name List.mem_cons_self)]
      cases entered : entry sb cur name with
      | none => simp [fits]
      | some file =>
        have onward := @ih ((next :: names).length + turns) file next (fun other inside => all other (List.mem_cons_of_mem _ inside))
          (fun other inside => free other (List.mem_cons_of_mem _ inside)) (by rw [List.length_cons]; omega)
        simpa [fits] using onward
    · simp [fits]

theorem length_joined (names : List (List Char)) : names.length ≤ (joined '/' names).length := by
  induction names with
  | nil => exact Nat.le_refl 0
  | cons name names ih =>
    rw [joined_cons, List.length_cons, List.length_cons, List.length_append]
    omega

section path
variable (sb : TmpfsSb) {names : List (List Char)} (all : ∀ name ∈ names, IsName '/' name) (free : ∀ name ∈ names, nul ∉ name)
include all free

theorem dfsTmpfsLookup_iff {found : Option Nat} :
    dfsTmpfsLookup sb (absolute '/' names) = some found ↔ sb.Fits 0 names ∧ sb.walk 0 names = found := by
  cases names with
  | nil => simp [dfsTmpfsLookup, absolute, skipSlashes, TmpfsSb.Fits, TmpfsSb.walk]
  | cons name names =>
    have isName := all name List.mem_cons_self
    have skip : skipSlashes (absolute '/' (name :: names)) = name ++ joined '/' names := by
      rw [← skip_name isName names]
      exact List.dropWhile_cons_of_pos (by decide)
    have some : name ++ joined '/' names ≠ [] := List.append_ne_nil_of_left_ne_nil isName.ne_nil _
    have enough : names.length < (absolute '/' (name :: names)).length + 1 :=
      Nat.lt_succ_of_le (Nat.le_trans (Nat.le_succ _) (length_joined (name :: names)))
    rw [dfsTmpfsLookup, skip, if_neg some, findSubpath_iff all free enough]

end path

theorem nextDir_eq {turns : Nat} {front names : List (List Char)} {name : List Char} (all : ∀ other ∈ name :: names, IsName '/' other)
    (enough : names.length < turns) :
    ∃ dirs last, front ++ name :: names = dirs ++ [last] ∧
      nextDir turns (opened front) (name ++ joined '/' names) = some (opened dirs, last) := by
  induction names generalizing front name turns with
  | nil =>
    obtain ⟨turns, rfl⟩ := Nat.exists_eq_add_of_lt enough
    have isName := all name List.mem_cons_self
    have cut := cut_name isName []
    refine ⟨front, name, rfl, ?_⟩
    rw [nextDir, cut.1, cut.2, if_neg isName.ne_nil]
    simp
  | cons next names ih =>
    obtain ⟨turns, rfl⟩ := Nat.exists_eq_add_of_lt enough
    have isName := all name List.mem_cons_self
    have cut := cut_name isName (next :: names)
    obtain ⟨dirs, last, same, goes⟩ := @ih ((next :: names).length + turns) (front ++ [name]) next
      (fun other inside => all other (List.mem_cons_of_mem _ inside)) (by rw [List.length_cons]; omega)
    refine ⟨dirs, last, by rw [← same, List.append_assoc]; rfl, ?_⟩
    rw [nextDir, cut.1, cut.2, if_neg isName.ne_nil, ← opened_snoc]
    exact goes

theorem pathSeparate_eq (bufs : Buffers) {path : TmpfsPath} (notRoot : path.names ≠ []) :
    ∃ dirs last parentRest fileRest, path.names = dirs ++ [last] ∧
      pathSeparate path.text bufs.parentPath bufs.fileName =
        if last.length < tmpfsNameMax then some (absolute '/' dirs ++ nul :: parentRest, last ++ nul :: fileRest)
        else none := by
  obtain ⟨names, plain, noNul, short⟩ := path
  obtain ⟨name, names, rfl⟩ := List.exists_cons_of_ne_nil notRoot
  obtain ⟨dirs, last, same, goes⟩ := @nextDir_eq (absolute '/' (name :: names)).length [] names name plain.isName
    (Nat.lt_of_lt_of_le (Nat.lt_succ_self _) (length_joined (name :: names)))
  have inside : (joined '/' dirs).length + 2 ≤ bufs.parentPath.length := by
    have whole : absolute '/' (name :: names) = joined '/' dirs ++ '/' :: last := by
      rw [absolute, ← List.nil_append (name :: names), same, joined_append]
      simp
    rw [whole, List.length_append, List.length_cons] at short
    rw [bufs.parentSize]
    omega
  obtain ⟨parentRest, parent⟩ : ∃ rest, rootParent (joined '/' dirs ++ nul :: bufs.parentPath.drop ((joined '/' dirs).length + 1)) =
      some (absolute '/' dirs ++ nul :: rest) := by
    cases dirs with
    | nil =>
      have begins : (joined '/' [] ++ nul :: bufs.parentPath.drop 1).head? = some nul := rfl
      have two : ['/', nul].length ≤ (nul :: bufs.parentPath.drop 1).length := by
        rw [@List.length_cons _ nul, List.length_drop]
        exact Nat.le_trans inside (by omega)
      exact ⟨_, (if_pos begins).trans ((write_eq _ _).trans (if_pos two))⟩
    | cons dir dirs => exact ⟨_, if_neg (by simp [nul])⟩
  have written : writeFrom bufs.parentPath 0 ((opened dirs).dropLast ++ [nul]) =
      some (joined '/' dirs ++ nul :: bufs.parentPath.drop ((joined '/' dirs).length + 1)) := by
    rw [opened, List.dropLast_concat, write_eq, if_pos (by rw [List.length_append, List.length_singleton]; omega)]
    simp
  have begun : writeFrom bufs.fileName 0 [nul] = some (nul :: bufs.fileName.drop 1) := by
    rw [write_eq, if_pos (by rw [bufs.fileSize]; decide)]
    rfl
  have size : (nul :: bufs.fileName.drop 1).length = tmpfsNameMax := by
    rw [List.length_cons, List.length_drop, bufs.fileSize]
    rfl
  refine ⟨dirs, last, parentRest, bufs.fileName.drop (last.length + 1), same, ?_⟩
  rw [pathSeparate, begun, Option.bind_some, TmpfsPath.text,
    show nextDir _ ['/'] (absolute '/' (name :: names)).tail = _ from goes]
  dsimp only
  rw [written, Option.bind_some, write_eq, size, List.length_append, List.length_singleton]
  by_cases fits : last.length + 1 ≤ tmpfsNameMax
  · rw [if_pos fits, if_pos (Nat.lt_of_succ_le fits), Option.bind_some, parent]
    simp
  · rw [if_neg fits, if_neg fun less => fits (Nat.succ_le_of_lt less)]
    rfl

theorem length_strncpy (src : List Char) : (strncpy src).length = tmpfsNameMax := by
  rw [strncpy, List.length_append, List.length_replicate, List.length_take]
  omega

theorem strncpy_short {text rest : List Char} (free : nul ∉ text) (fits : text.length < tmpfsNameMax) :
    nul ∈ strncpy (text ++ nul :: rest) ∧ cString (strncpy (text ++ nul :: rest)) = text := by
  have whole : text.take tmpfsNameMax = text := List.take_of_length_le (Nat.le_of_lt fits)
  have positive : tmpfsNameMax - text.length ≠ 0 := by omega
  rw [strncpy, cString_eq free, whole]
  exact ⟨by simp [positive], cString_padded free _⟩

/-! ## The file system -/

namespace TmpfsSb
variable {sb : TmpfsSb}

theorem Fits.front {cur : Nat} {names more : List (List Char)} (fits : sb.Fits cur (names ++ more)) : sb.Fits cur names := by
  induction names generalizing cur with
  | nil => trivial
  | cons name names ih => exact ⟨fits.1, fun file found => ih (fits.2 file found)⟩

theorem walk_append (cur : Nat) (names more : List (List Char)) :
    sb.walk cur (names ++ more) = (sb.walk cur names).bind fun file => sb.walk file more := by
  induction names generalizing cur with
  | nil => rfl
  | cons name names ih => simp [walk, ih, Option.bind_assoc]

theorem Sound.update (sound : sb.Sound) (i : Nat) {file : TmpfsFile} {next : Nat} (size : file.name.length = tmpfsNameMax)
    (ends : nul ∈ file.name) (entries : ∀ j ∈ file.subdirs, j < next) (grows : sb.next ≤ next) :
    Sound ⟨Function.update sb.files i file, next⟩ := by
  have each (k : Nat) : (Function.update sb.files i file k).name.length = tmpfsNameMax ∧
      nul ∈ (Function.update sb.files i file k).name ∧ ∀ j ∈ (Function.update sb.files i file k).subdirs, j < next := by
    by_cases same : k = i
    · rw [same, Function.update_self]
      exact ⟨size, ends, entries⟩
    · rw [Function.update_of_ne same]
      exact ⟨sound.size k, sound.ends k, fun j inside => Nat.lt_of_lt_of_le (sound.entries k j inside) grows⟩
  exact ⟨Nat.lt_of_lt_of_le sound.root grows, fun k => (each k).1, fun k => (each k).2.1, fun k => (each k).2.2⟩

theorem Sound.unlink (sound : sb.Sound) (file : Nat) : (sb.unlink file).Sound :=
  ⟨sound.root, sound.size, sound.ends, fun i j inside => sound.entries i j (List.mem_filter.mp inside).1⟩

theorem Sound.link (sound : sb.Sound) (parent : Nat) {file : Nat} (less : file < sb.next) : (sb.link parent file).Sound :=
  sound.update parent (sound.size parent) (sound.ends parent)
    (List.forall_mem_cons.mpr ⟨less, sound.entries parent⟩) (Nat.le_refl _)

theorem Sound.walk_lt (sound : sb.Sound) {cur file : Nat} {names : List (List Char)} (less : cur < sb.next)
    (found : sb.walk cur names = some file) : file < sb.next := by
  induction names generalizing cur with
  | nil => exact Option.some.inj found ▸ less
  | cons name names ih =>
    obtain ⟨next, entered, found⟩ := Option.bind_eq_some_iff.mp found
    exact ih (sound.entries cur next (List.mem_of_find?_eq_some entered)) found

/-- The file that has been created is found under its path. -/
theorem Sound.found (sound : sb.Sound) {cur parent : Nat} {dirs : List (List Char)} {last name : List Char}
    (less : cur < sb.next) (fits : sb.Fits cur dirs) (found : sb.walk cur dirs = some parent)
    (fresh : entry sb parent last = none) (short : last.length ≤ tmpfsNameMax) (named : cString name = last) :
    ((sb.create name).link parent sb.next).Fits cur (dirs ++ [last]) ∧
      ((sb.create name).link parent sb.next).walk cur (dirs ++ [last]) = some sb.next := by
  have below : parent < sb.next := sound.walk_lt less found
  have names (j : Nat) (old : j < sb.next) : (((sb.create name).link parent sb.next).files j).name = (sb.files j).name := by
    by_cases same : j = parent <;> simp [TmpfsSb.link, create, same, below.ne, old.ne]
  have created : (((sb.create name).link parent sb.next).files sb.next).name = name := by
    simp [TmpfsSb.link, create, below.ne']
  have entries (j : Nat) (old : j < sb.next) : (((sb.create name).link parent sb.next).files j).subdirs =
      if j = parent then sb.next :: (sb.files j).subdirs else (sb.files j).subdirs := by
    by_cases same : j = parent <;> simp [TmpfsSb.link, create, same, below.ne, old.ne]
  have old (j : Nat) (less : j < sb.next) (other : List Char) (different : j = parent → last ≠ other) :
      entry ((sb.create name).link parent sb.next) j other = entry sb j other := by
    have same : ((sb.files j).subdirs.find? fun i => cString (((sb.create name).link parent sb.next).files i).name = other) =
        entry sb j other :=
      List.find?_congr fun i inside => by rw [names i (sound.entries j i inside)]
    rw [entry, entries j less]
    split
    next here => rw [List.find?_cons_of_neg (by simpa [created, named] using different here), same]
    next => exact same
  induction dirs generalizing cur with
  | nil =>
    obtain rfl := Option.some.inj found
    have new : entry ((sb.create name).link cur sb.next) cur last = some sb.next := by
      rw [entry, entries cur less, if_pos rfl, List.find?_cons_of_pos (by simpa [created] using named)]
    exact ⟨⟨short, fun _ _ => trivial⟩, by rw [List.nil_append, walk, new]; rfl⟩
  | cons dir dirs ih =>
    obtain ⟨file, entered, found⟩ := Option.bind_eq_some_iff.mp found
    have still := old cur less dir fun here same => by
      rw [← here, same, entered] at fresh
      cases fresh
    have onward := ih (sound.entries cur file (List.mem_of_find?_eq_some entered)) (fits.2 file entered) found
    rw [entered] at still
    refine ⟨⟨fits.1, fun other same => ?_⟩, by rw [List.cons_append, walk, still]; exact onward.2⟩
    rw [← Option.some.inj (still.symm.trans same)]
    exact onward.1

end TmpfsSb

/-! ## Results -/

section safe
variable (sb : TmpfsSb) (bufs : Buffers)

/-- Nothing is written outside a buffer, every name ends in its field, and the file is found under the path. -/
def OpenSafe (path : TmpfsPath) (creat memory : Bool) : Prop :=
  ∃ after file, sb.dfsTmpfsOpen bufs path.text creat memory = some (after, file) ∧ after.Sound ∧
    ∀ i, file = some i → dfsTmpfsLookup after path.text = some (some i)

def RenameSafe (oldpath newpath : TmpfsPath) : Prop :=
  ∃ after, sb.dfsTmpfsRename bufs oldpath.text newpath.text = some after ∧ after.Sound

end safe

/-- The last component fits with its NUL. -/
def LastFits (path : TmpfsPath) : Prop := ∀ last ∈ path.names.getLast?, last.length < tmpfsNameMax

variable {sb : TmpfsSb}

theorem TmpfsPath.lookup_iff (path : TmpfsPath) {found : Option Nat} :
    dfsTmpfsLookup sb path.text = some found ↔ sb.Fits 0 path.names ∧ sb.walk 0 path.names = found :=
  dfsTmpfsLookup_iff sb path.plain.isName path.noNul

theorem noNul_absolute {names : List (List Char)} (free : ∀ name ∈ names, nul ∉ name) : nul ∉ absolute '/' names := by
  cases names with
  | nil => decide
  | cons name names =>
    intro bad
    obtain ⟨other, inside, within⟩ := List.mem_flatMap.mp bad
    obtain slash | within := List.mem_cons.mp within
    · exact absurd slash (by decide)
    · exact free other inside within

/-- What `_path_separate` and the lookup of the parent give for a new path. -/
theorem separated (bufs : Buffers) {path : TmpfsPath} (fits : sb.Fits 0 path.names) (new : sb.walk 0 path.names = none) :
    ∃ dirs last, path.names = dirs ++ [last] ∧ nul ∉ last ∧ sb.Fits 0 dirs ∧
      if last.length < tmpfsNameMax then
        ∃ parentPath fileName, pathSeparate path.text bufs.parentPath bufs.fileName = some (parentPath, last ++ nul :: fileName) ∧
          (last ++ nul :: fileName).head? ≠ some nul ∧ dfsTmpfsLookup sb (cString parentPath) = some (sb.walk 0 dirs)
      else pathSeparate path.text bufs.parentPath bufs.fileName = none := by
  have notRoot : path.names ≠ [] := fun root => by
    rw [root] at new
    cases new
  obtain ⟨dirs, last, parentRest, fileRest, same, separates⟩ := pathSeparate_eq bufs notRoot
  have free := path.noNul last (by simp [same])
  have fits' : sb.Fits 0 dirs := (same ▸ fits).front
  refine ⟨dirs, last, same, free, fits', ?_⟩
  split at separates
  next less =>
    rw [if_pos less]
    have frees : ∀ name ∈ dirs, nul ∉ name := fun name inside => path.noNul name (by simp [same, inside])
    obtain ⟨c, rest, whole⟩ := List.exists_cons_of_ne_nil (path.plain last (by simp [same])).ne_nil
    refine ⟨_, fileRest, separates, ?_, ?_⟩
    · rw [whole] at free ⊢
      exact fun first => free (Option.some.inj first ▸ List.mem_cons_self)
    · rw [cString_eq (noNul_absolute frees)]
      exact (dfsTmpfsLookup_iff sb (fun name inside => path.plain.isName name (by simp [same, inside])) frees).mpr ⟨fits', rfl⟩
  next less =>
    rw [if_neg less]
    exact separates

theorem lastFits_iff {path : TmpfsPath} {dirs : List (List Char)} {last : List Char} (same : path.names = dirs ++ [last]) :
    LastFits path ↔ last.length < tmpfsNameMax := by
  simp [LastFits, same]

theorem TmpfsPath.lookup_none {path : TmpfsPath} (long : ¬sb.Fits 0 path.names) : dfsTmpfsLookup sb path.text = none :=
  Option.eq_none_iff_forall_ne_some.mpr fun _ looks => long (path.lookup_iff.mp looks).1

theorem openSafe_iff (sound : sb.Sound) (bufs : Buffers) (path : TmpfsPath) (creat memory : Bool) :
    OpenSafe sb bufs path creat memory ↔
      sb.Fits 0 path.names ∧ (creat = true → sb.walk 0 path.names = none → LastFits path) := by
  unfold OpenSafe TmpfsSb.dfsTmpfsOpen
  by_cases fits : sb.Fits 0 path.names
  swap
  · simp [fits, path.lookup_none fits]
  have looks : dfsTmpfsLookup sb path.text = some (sb.walk 0 path.names) := path.lookup_iff.mpr ⟨fits, rfl⟩
  cases old : sb.walk 0 path.names with
  | some file => simp [fits, sound, looks, old]
  | none =>
    cases creat with
    | false => simp [looks, old, fits, sound]
    | true =>
      obtain ⟨dirs, last, same, free, fits', rest⟩ := separated bufs fits old
      rw [lastFits_iff same, looks, old]
      split at rest
      next less =>
        obtain ⟨parentPath, fileName, separates, some, parent⟩ := rest
        obtain ⟨ends, named⟩ := @strncpy_short last fileName free less
        refine iff_of_true ?_ ⟨fits, fun _ _ => less⟩
        simp only [separates, Option.bind_some, if_true, if_neg some, parent]
        cases found : sb.walk 0 dirs with
        | none => exact ⟨sb, none, rfl, sound, by simp⟩
        | some parent =>
          cases memory with
          | false => exact ⟨sb, none, rfl, sound, by simp⟩
          | true =>
            refine ⟨_, _, rfl, ?_, fun i same' => path.lookup_iff.mpr ?_⟩
            · have created := @TmpfsSb.Sound.update sb sound sb.next ⟨strncpy (last ++ nul :: fileName), []⟩ (sb.next + 1)
                (length_strncpy _) ends (fun _ none => absurd none List.not_mem_nil) (Nat.le_succ sb.next)
              exact created.link parent (Nat.lt_succ_self sb.next)
            · rw [same, ← same']
              refine sound.found sound.root fits' found ?_ (Nat.le_of_lt less) named
              rw [same, TmpfsSb.walk_append, found] at old
              simpa [TmpfsSb.walk] using old
      next long => simp [rest, long]

theorem renameSafe_iff (sound : sb.Sound) (bufs : Buffers) (oldpath newpath : TmpfsPath) :
    RenameSafe sb bufs oldpath newpath ↔ sb.Fits 0 newpath.names ∧ (sb.walk 0 newpath.names = none →
      sb.Fits 0 oldpath.names ∧ ((sb.walk 0 oldpath.names).isSome = true → LastFits newpath)) := by
  unfold RenameSafe TmpfsSb.dfsTmpfsRename
  by_cases fits : sb.Fits 0 newpath.names
  swap
  · simp [fits, newpath.lookup_none fits]
  have looks : dfsTmpfsLookup sb newpath.text = some (sb.walk 0 newpath.names) := newpath.lookup_iff.mpr ⟨fits, rfl⟩
  cases new : sb.walk 0 newpath.names with
  | some file => simp [fits, sound, looks, new]
  | none =>
    by_cases fitsOld : sb.Fits 0 oldpath.names
    swap
    · simp [fitsOld, oldpath.lookup_none fitsOld, looks, new]
    have looksOld : dfsTmpfsLookup sb oldpath.text = some (sb.walk 0 oldpath.names) := oldpath.lookup_iff.mpr ⟨fitsOld, rfl⟩
    cases old : sb.walk 0 oldpath.names with
    | none => simp [fits, sound, looks, new, fitsOld, looksOld, old]
    | some file =>
      obtain ⟨dirs, last, same, free, fits', rest⟩ := separated bufs fits new
      rw [lastFits_iff same, looks, new, looksOld, old]
      split at rest
      next less =>
        obtain ⟨parentPath, fileName, separates, some, parent⟩ := rest
        obtain ⟨ends, named⟩ := @strncpy_short last fileName free less
        refine iff_of_true ?_ ⟨fits, fun _ => ⟨fitsOld, fun _ => less⟩⟩
        simp only [separates, Option.bind_some, if_neg some, parent]
        cases found : sb.walk 0 dirs with
        | none => exact ⟨sb, rfl, sound⟩
        | some parent =>
          have renamed := @TmpfsSb.Sound.update _ (sound.unlink file) file
            { (sb.unlink file).files file with name := strncpy (last ++ nul :: fileName) } sb.next (length_strncpy _) ends
            ((sound.unlink file).entries file) (Nat.le_refl _)
          exact ⟨_, rfl, renamed.link parent (sound.walk_lt sound.root old)⟩
      next long => simp [rest, long]

/-- A call is safe just if what it copies is short enough. -/
theorem tmpfs_iff (sound : sb.Sound) (bufs : Buffers) (path oldpath newpath : TmpfsPath) (creat memory : Bool) :
    ((∃ found, dfsTmpfsLookup sb path.text = some found) ↔ sb.Fits 0 path.names) ∧
      (OpenSafe sb bufs path creat memory ↔
        sb.Fits 0 path.names ∧ (creat = true → sb.walk 0 path.names = none → LastFits path)) ∧
      (RenameSafe sb bufs oldpath newpath ↔ sb.Fits 0 newpath.names ∧ (sb.walk 0 newpath.names = none →
        sb.Fits 0 oldpath.names ∧ ((sb.walk 0 oldpath.names).isSome = true → LastFits newpath))) :=
  ⟨⟨fun ⟨_, looks⟩ => (path.lookup_iff.mp looks).1, fun fits => ⟨_, path.lookup_iff.mpr ⟨fits, rfl⟩⟩⟩,
    openSafe_iff sound bufs path creat memory, renameSafe_iff sound bufs oldpath newpath⟩

/-- What `dfs_tmpfs_mount` makes, with nothing in it. -/
def mounted : TmpfsSb := ⟨fun _ => ⟨'/' :: List.replicate 31 nul, []⟩, 1⟩

theorem mounted_sound : mounted.Sound := ⟨Nat.one_pos, fun _ => rfl, fun _ => by simp [mounted], fun _ _ none => nomatch none⟩

def clearBuffers : Buffers := ⟨List.replicate 256 nul, List.replicate 32 nul, List.length_replicate, List.length_replicate⟩

theorem repeated_plain (n : Nat) (positive : n ≠ 0) : Plain [List.replicate n 'a'] :=
  List.forall_mem_singleton.mpr
    { ne_nil := by simpa using positive
      noSep := by simp
      ne_dot := fun same => by simpa [same] using List.eq_of_mem_replicate (n := n) (a := 'a') (b := '.') (by simp [same])
      ne_dotDot := fun same => by simpa [same] using List.eq_of_mem_replicate (n := n) (a := 'a') (b := '.') (by simp [same]) }

theorem repeated_short (n : Nat) (short : n < 255) : (absolute '/' [List.replicate n 'a']).length < dfsPathMax := by
  simp [absolute, dfsPathMax]; omega

/-- A path of one component. -/
def repeated (n : Nat) (positive : n ≠ 0) (short : n < 255) : TmpfsPath where
  names := [List.replicate n 'a']
  plain := repeated_plain n positive
  noNul := by simp [nul]
  short := repeated_short n short

theorem tmpfs_iff_letter : OpenSafe mounted clearBuffers (repeated 1 (by decide) (by decide)) true true :=
  (tmpfs_iff mounted_sound clearBuffers _ (repeated 1 (by decide) (by decide)) (repeated 1 (by decide) (by decide)) true
    true).2.1.mpr ⟨⟨by decide, fun _ _ => trivial⟩, fun _ _ => by simp [LastFits, repeated, tmpfsNameMax]⟩

/-- The NUL of a name of 32 characters is written behind `file_name`. -/
theorem name32_not_safe : ¬OpenSafe mounted clearBuffers (repeated 32 (by decide) (by decide)) true true := by
  rw [openSafe_iff mounted_sound]
  intro short
  have fits := short.2 rfl rfl
  simp [LastFits, repeated, tmpfsNameMax] at fits

end RtThread.Dfs.Tmpfs
