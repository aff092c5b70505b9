import RtThread.Lib.Path
import Mathlib.Data.List.DropRight

/-! `dfs_normalize_path`. The path is rewritten in place: `src` is the rest of it that has not been read, and `dst` what
has been written. The end of a list is the NUL of the string. -/

set_option autoImplicit false
namespace RtThread.Dfs
open Lib

/-- A directory for `dfs_normalize_path`: the working directory starts at the root, and is set to absolute paths. -/
structure Directory where
  path : List Char
  absolute : path.head? = some '/'

/-- `while (*src == '/') src++` -/
def skipSlashes (src : List Char) : List Char := src.dropWhile (· = '/')

/-- The code at `up_one`. -/
def upOne (dst : List Char) : Option (List Char) :=
  if dst.length ≠ 1 ∨ dst.getLast? ≠ some '/' then
    if dst = [] then none else some (dst.dropLast.rdropWhile (· ≠ '/'))
  else some (dst.rdropWhile (· ≠ '/'))

def normalizeLoop : Nat → List Char → List Char → Option (List Char)
  | 0, _, _ => none
  | turns + 1, src, dst =>
    if src = ['.'] then some dst
    else if src.take 2 = ['.', '/'] then normalizeLoop turns (skipSlashes (src.drop 2)) dst
    else if src = ['.', '.'] then (upOne dst).bind (normalizeLoop turns [])
    else if src.take 3 = ['.', '.', '/'] then (upOne dst).bind (normalizeLoop turns (skipSlashes (src.drop 3)))
    else
      match src.dropWhile (· ≠ '/') with
      | [] => some (dst ++ src)
      | _ :: rest => normalizeLoop turns (skipSlashes rest) (dst ++ src.takeWhile (· ≠ '/') ++ ['/'])

def removeSlash (dst : List Char) : List Char :=
  if 1 < dst.length ∧ dst.getLast? = some '/' then dst.dropLast else dst

def endPath (dst : List Char) : List Char := if removeSlash dst = [] then ['/'] else removeSlash dst

/-- The path that is rewritten. Without a directory (no DFS_USING_WORKDIR) only an absolute one will do. -/
def joinPath (directory : Option Directory) (filename : List Char) : Option (List Char) :=
  if filename.head? ≠ some '/' then directory.map (·.path ++ '/' :: filename) else some filename

def dfsNormalizePath (directory : Option Directory) (filename : List Char) : Option (List Char) :=
  (joinPath directory filename).bind fun fullpath => (normalizeLoop (fullpath.length + 1) fullpath []).map endPath

/-! ## What it computes -/

/-- `dst` at the beginning of a component. -/
def opened (names : List (List Char)) : List Char := joined '/' names ++ ['/']

variable {names : List (List Char)} {src dst : List Char}

theorem opened_snoc (names : List (List Char)) (name : List Char) :
    opened (names ++ [name]) = opened names ++ name ++ ['/'] := by
  simp [opened, joined_append]

theorem opened_ne_nil : opened names ≠ [] := List.append_ne_nil_of_right_ne_nil _ (List.cons_ne_nil _ _)

theorem getLast_opened : (opened names).getLast? = some '/' := List.getLast?_concat

theorem rdropWhile_opened (free : '/' ∉ src) : (opened names ++ src).rdropWhile (· ≠ '/') = opened names := by
  induction src using List.reverseRecOn with
  | nil =>
    rw [List.append_nil, opened, List.rdropWhile_concat_neg]
    simp
  | append_singleton src c ih =>
    have other : c ≠ '/' := fun same => free (by simp [same])
    rw [← List.append_assoc, List.rdropWhile_concat_pos (· ≠ '/') _ c (by simpa using other)]
    exact ih (fun bad => free (List.mem_append_left _ bad))

theorem upOne_opened (all : ∀ name ∈ names, IsName '/' name) : upOne (opened names) = some (opened names.dropLast) := by
  induction names using List.reverseRecOn with
  | nil => decide
  | append_singleton names name _ =>
    have long : (opened (names ++ [name])).length ≠ 1 := by
      have pos : 0 < (opened names).length := List.length_pos_iff.mpr opened_ne_nil
      rw [opened_snoc, List.length_append, List.length_append, List.length_singleton]
      omega
    rw [upOne, if_pos (Or.inl long), if_neg opened_ne_nil, opened_snoc, List.dropLast_concat,
      rdropWhile_opened (all name (by simp)).noSep, List.dropLast_concat]

theorem endPath_opened (all : ∀ name ∈ names, IsName '/' name) : endPath (opened names) = absolute '/' names := by
  cases names with
  | nil => decide
  | cons name names =>
    have some : joined '/' (name :: names) ≠ [] := List.cons_ne_nil _ _
    have long : 1 < (opened (name :: names)).length := by
      have pos := List.length_pos_iff.mpr some
      rw [opened, List.length_append, List.length_singleton]
      omega
    have cut : removeSlash (opened (name :: names)) = joined '/' (name :: names) := by
      rw [removeSlash, if_pos ⟨long, getLast_opened⟩, opened, List.dropLast_concat]
    rw [endPath, cut, if_neg some, absolute]

theorem endPath_name (names : List (List Char)) (isName : IsName '/' src) :
    endPath (opened names ++ src) = absolute '/' (names ++ [src]) := by
  have last : (opened names ++ src).getLast? ≠ some '/' := by
    rw [List.getLast?_append_of_ne_nil _ isName.ne_nil]
    exact fun slash => isName.noSep (List.mem_of_getLast? slash)
  have some : opened names ++ src ≠ [] := List.append_ne_nil_of_left_ne_nil opened_ne_nil _
  have kept : removeSlash (opened names ++ src) = opened names ++ src := if_neg fun both => last both.2
  rw [endPath, kept, if_neg some, absolute_of_ne_nil (by simp), joined_append, opened]
  simp

theorem head_skipSlashes (src : List Char) : (skipSlashes src).head? ≠ some '/' := by
  intro slash
  have found := List.head?_dropWhile_not (· = '/') src
  rw [show src.dropWhile (· = '/') = skipSlashes src from rfl, slash] at found
  simp at found

theorem components_skipSlashes (src : List Char) : components '/' (skipSlashes src) = components '/' src :=
  components_dropSeps src

theorem length_skipSlashes (src : List Char) : (skipSlashes src).length ≤ src.length :=
  (List.dropWhile_sublist _).length_le

theorem turn_last (turns : Nat) (free : '/' ∉ src) :
    normalizeLoop (turns + 1) src dst =
      if src = ['.'] then some dst
      else if src = ['.', '.'] then (upOne dst).bind (normalizeLoop turns []) else some (dst ++ src) := by
  have noDot : src.take 2 ≠ ['.', '/'] := fun same => free (List.mem_of_mem_take (i := 2) (by simp [same]))
  have noDots : src.take 3 ≠ ['.', '.', '/'] := fun same => free (List.mem_of_mem_take (i := 3) (by simp [same]))
  have none : src.dropWhile (· ≠ '/') = [] := by
    rw [List.dropWhile_eq_nil_iff]
    intro c inside
    simpa using fun same : c = '/' => free (same ▸ inside)
  rw [normalizeLoop, if_neg noDot, if_neg noDots, none]

theorem turn_name (turns : Nat) {name : List Char} (isName : IsName '/' name) (rest : List Char) :
    normalizeLoop (turns + 1) (name ++ '/' :: rest) dst =
      if name = ['.'] then normalizeLoop turns (skipSlashes rest) dst
      else if name = ['.', '.'] then (upOne dst).bind (normalizeLoop turns (skipSlashes rest))
      else normalizeLoop turns (skipSlashes rest) (dst ++ name ++ ['/']) := by
  have pass : ∀ c ∈ name, decide (c ≠ '/') = true := by
    intro c inside
    simpa using fun same : c = '/' => isName.noSep (same ▸ inside)
  have stop : (name ++ '/' :: rest).dropWhile (· ≠ '/') = '/' :: rest := by
    rw [List.dropWhile_append_of_pos pass]
    exact List.dropWhile_cons_of_neg (by decide)
  have taken : (name ++ '/' :: rest).takeWhile (· ≠ '/') = name := by
    rw [List.takeWhile_append_of_pos pass, List.takeWhile_cons_of_neg (by decide), List.append_nil]
  rw [normalizeLoop, stop, taken]
  match name, isName with
  | [], isName => exact absurd rfl isName.ne_nil
  | [a], _ => simp
  | [a, b], isName =>
    have noSlash : b ≠ '/' := fun same => isName.noSep (by simp [same])
    simp [noSlash]
  | a :: b :: c :: more, isName =>
    have noSlash : b ≠ '/' := fun same => isName.noSep (by simp [same])
    have noSlash' : c ≠ '/' := fun same => isName.noSep (by simp [same])
    simp [noSlash, noSlash']

theorem normalizeLoop_eq {turns : Nat} (enough : src.length < turns) (begins : src.head? ≠ some '/')
    (all : ∀ name ∈ names, IsPlain '/' '.' name) :
    (normalizeLoop turns src (opened names)).map endPath =
      some (absolute '/' ((components '/' src).foldl (enter '.') names)) := by
  induction turns generalizing src names with
  | zero => exact absurd enough (Nat.not_lt_zero _)
  | succ turns ih =>
    have areNames : ∀ name ∈ names, IsName '/' name := fun name inside => (all name inside).toIsName
    have back : ∀ name ∈ names.dropLast, IsPlain '/' '.' name := fun name inside => all name (List.mem_of_mem_dropLast inside)
    by_cases free : '/' ∉ src
    · rw [turn_last turns free]
      by_cases none : src = []
      · rw [none, if_neg (by decide), if_neg (by decide), List.append_nil, Option.map_some, endPath_opened areNames]
        rfl
      have isName : IsName '/' src := ⟨none, free⟩
      rw [components_name isName, List.foldl_cons, List.foldl_nil, enter]
      split
      · rw [Option.map_some, endPath_opened areNames]
      · split
        case isTrue isDots =>
          rw [isDots] at enough
          rw [upOne_opened areNames, Option.bind_some, ih (by simp at enough ⊢; omega) (by decide) back, components_nil]
          rfl
        case isFalse => rw [Option.map_some, endPath_name names isName]
    · obtain ⟨name, rest, same, freeName⟩ := List.eq_append_cons_of_mem (not_not.mp free)
      rw [same] at enough begins ⊢
      have isName : IsName '/' name := by
        refine ⟨fun none => ?_, freeName⟩
        rw [none] at begins
        exact begins rfl
      have shorter : (skipSlashes rest).length < turns := by
        have skipped := length_skipSlashes rest
        have pos := List.length_pos_iff.mpr isName.ne_nil
        rw [List.length_append, List.length_cons] at enough
        omega
      rw [turn_name turns isName, components_name_sep isName, List.foldl_cons, enter, ← components_skipSlashes rest]
      split
      · exact ih shorter (head_skipSlashes rest) all
      · split
        case isTrue =>
          rw [upOne_opened areNames, Option.bind_some]
          exact ih shorter (head_skipSlashes rest) back
        case isFalse noDot noDots =>
          rw [← opened_snoc]
          refine ih shorter (head_skipSlashes rest) fun other inside => ?_
          rcases List.mem_append.mp inside with before | last
          · exact all other before
          · rw [List.mem_singleton.mp last]
            exact ⟨isName, noDot, noDots⟩

theorem joinPath_head {directory : Option Directory} {filename path : List Char}
    (joins : joinPath directory filename = some path) : path.head? = some '/' := by
  unfold joinPath at joins
  split at joins
  · obtain ⟨dir, _, same⟩ := Option.map_eq_some_iff.mp joins
    rw [← same, List.head?_append, dir.absolute]
    rfl
  case isFalse absolute =>
    rw [← Option.some.inj joins]
    exact not_not.mp absolute

def resolve (path : List Char) : List (List Char) := (components '/' path).foldl (enter '.') []

theorem isPlain_resolve (path : List Char) : ∀ name ∈ resolve path, IsPlain '/' '.' name :=
  isPlain_foldl_enter (fun _ inside => isName_of_mem_components inside) fun _ none => absurd none List.not_mem_nil

theorem dfsNormalizePath_eq (directory : Option Directory) (filename : List Char) :
    dfsNormalizePath directory filename = (joinPath directory filename).map fun path => absolute '/' (resolve path) := by
  unfold dfsNormalizePath
  cases joins : joinPath directory filename with
  | none => rfl
  | some path =>
    obtain ⟨rest, same⟩ : ∃ rest, path = '/' :: rest := by
      have first := joinPath_head joins
      cases path with
      | nil => cases first
      | cons c rest => exact ⟨rest, by rw [Option.some.inj first]⟩
    have start : normalizeLoop (path.length + 1) path [] = normalizeLoop path.length (skipSlashes rest) (opened []) := by
      rw [same, normalizeLoop]
      simp [opened]
    have shorter : (skipSlashes rest).length < path.length := by
      have skipped := length_skipSlashes rest
      rw [same, List.length_cons]
      omega
    rw [Option.bind_some, start, normalizeLoop_eq shorter (head_skipSlashes rest) (by simp), components_skipSlashes,
      Option.map_some, resolve, same, components_sep]

def Plain (names : List (List Char)) : Prop := ∀ name ∈ names, IsPlain '/' '.' name

theorem Plain.isName {names : List (List Char)} (plain : Plain names) : ∀ name ∈ names, IsName '/' name :=
  fun name inside => (plain name inside).toIsName

/-- A normalised path: it begins at the root, and has no empty, `.` or `..` component. -/
def IsNormal (path : List Char) : Prop := ∃ names, Plain names ∧ path = absolute '/' names

theorem isNormal_dfsNormalizePath {directory : Option Directory} {filename path : List Char}
    (normalizes : dfsNormalizePath directory filename = some path) : IsNormal path := by
  rw [dfsNormalizePath_eq] at normalizes
  obtain ⟨joined, _, same⟩ := Option.map_eq_some_iff.mp normalizes
  exact ⟨_, isPlain_resolve joined, same.symm⟩

theorem resolve_absolute {names : List (List Char)} (all : Plain names) : resolve (absolute '/' names) = names := by
  rw [resolve, components_absolute all.isName, foldl_enter_plain all, List.nil_append]

theorem dfsNormalizePath_normal (directory : Option Directory) {path : List Char} (normal : IsNormal path) :
    dfsNormalizePath directory path = some path := by
  obtain ⟨names, all, rfl⟩ := normal
  have first : (absolute '/' names).head? = some '/' := by cases names <;> rfl
  rw [dfsNormalizePath_eq, joinPath, if_neg (not_not.mpr first), Option.map_some, resolve_absolute all]

end RtThread.Dfs
