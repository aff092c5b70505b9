import RtThread.Dfs.Mount

/-! Which paths the mount table holds, and what a lookup finds in it. -/

set_option autoImplicit false
namespace RtThread.Dfs
open Lib

/-- Entry `i` is occupied, and mounted on the path. -/
def MountedAt (table : FilesystemTable) (i : Nat) (path : List Char) : Prop :=
  ∃ fs : Filesystem, table[i]? = some fs ∧ fs.ops ≠ none ∧ fs.path = some path

def Normal (table : FilesystemTable) : Prop :=
  ∀ (i : Nat) (fs : Filesystem), table[i]? = some fs → fs.ops ≠ none → ∃ path, fs.path = some path ∧ IsNormal path

def Distinct (table : FilesystemTable) : Prop := ∀ i j path, MountedAt table i path → MountedAt table j path → i = j

def Covers (table : FilesystemTable) (i : Nat) (mounted names : List (List Char)) : Prop :=
  Plain mounted ∧ MountedAt table i (absolute '/' mounted) ∧ mounted <+: names

def Longest (table : FilesystemTable) (names : List (List Char)) : Option Nat → Prop
  | none => ∀ i mounted, ¬Covers table i mounted names
  | some i => ∃ mounted, Covers table i mounted names ∧
      ∀ j other, Covers table j other names → other.length ≤ mounted.length

/-- Every lookup of a normalised path finds the entry with the longest mount path in front of it. -/
def LooksUp (table : FilesystemTable) : Prop :=
  ∀ names, Plain names → Longest table names (dfsFilesystemLookup table (absolute '/' names))

structure SoundTable (table : FilesystemTable) : Prop where
  normal : Normal table
  distinct : Distinct table
  looksUp : LooksUp table

/-- What the code relies on, besides: an entry that is not occupied is all zero, and one that is has a path. -/
structure MountInv (table : FilesystemTable) : Prop where
  normal : Normal table
  distinct : Distinct table
  zero : ∀ fs ∈ table, fs.ops = none → fs = .zero

/-! ## Lookup -/

section lookup
variable {table rest : FilesystemTable} {names : List (List Char)} {i j prefixlen : Nat} {fs : Option Nat}

theorem accepts_iff {mounted : List (List Char)} (plain : Plain mounted) (plainNames : Plain names) :
    (strncmpEq (absolute '/' mounted) (absolute '/' names) (absolute '/' mounted).length ∧
        ¬(1 < (absolute '/' mounted).length ∧ (absolute '/' mounted).length < (absolute '/' names).length ∧
          (absolute '/' names)[(absolute '/' mounted).length]? ≠ some '/')) ↔
      mounted <+: names := by
  rw [← prefixed_absolute plain.isName plainNames.isName, strncmpEq, List.take_length, ← List.prefix_iff_eq_take]
  refine and_congr_right fun _ => ?_
  by_cases slash : (absolute '/' names)[(absolute '/' mounted).length]? = some '/'
  · simp [slash]
  · simp only [slash, ne_eq, not_false_iff, and_true, or_false]
    omega

/-- What `dfs_filesystem_lookup` has found when it comes to entry `i`. -/
def Best (table : FilesystemTable) (names : List (List Char)) (i : Nat) : Option Nat → Nat → Prop
  | none, prefixlen => prefixlen = 0 ∧ ∀ j < i, ∀ mounted, ¬Covers table j mounted names
  | some k, prefixlen => ∃ mounted, Covers table k mounted names ∧ prefixlen = (absolute '/' mounted).length ∧
      ∀ j < i, ∀ other, Covers table j other names → (absolute '/' other).length ≤ prefixlen

theorem Best.skip (best : Best table names i fs prefixlen)
    (shorter : ∀ mounted, Covers table i mounted names → (absolute '/' mounted).length < prefixlen) :
    Best table names (i + 1) fs prefixlen := by
  cases fs with
  | none =>
    obtain ⟨zero, none⟩ := best
    refine ⟨zero, fun j less mounted covers => ?_⟩
    rcases Nat.lt_succ_iff_lt_or_eq.mp less with before | same
    · exact none j before mounted covers
    · rw [same] at covers
      exact Nat.not_lt_zero _ (zero ▸ shorter mounted covers)
  | some k =>
    obtain ⟨mounted, covers, length, longest⟩ := best
    refine ⟨mounted, covers, length, fun j less other otherCovers => ?_⟩
    rcases Nat.lt_succ_iff_lt_or_eq.mp less with before | same
    · exact longest j before other otherCovers
    · rw [same] at otherCovers
      exact Nat.le_of_lt (shorter other otherCovers)

theorem Best.take (best : Best table names i fs prefixlen) {mounted : List (List Char)}
    (covers : Covers table i mounted names) (longer : prefixlen ≤ (absolute '/' mounted).length) :
    Best table names (i + 1) (some i) (absolute '/' mounted).length := by
  refine ⟨mounted, covers, rfl, fun j less other otherCovers => ?_⟩
  rcases Nat.lt_succ_iff_lt_or_eq.mp less with before | same
  · cases fs with
    | none => exact absurd otherCovers (best.2 j before other)
    | some k =>
      obtain ⟨_, _, _, longest⟩ := best
      exact Nat.le_trans (longest j before other otherCovers) longer
  · obtain ⟨_, ⟨fs, at_, _, path⟩, _⟩ := covers
    obtain ⟨_, ⟨otherFs, otherAt, _, otherPath⟩, _⟩ := otherCovers
    rw [same, at_, Option.some.injEq] at otherAt
    rw [← otherAt, path, Option.some.injEq] at otherPath
    exact Nat.le_of_eq (congrArg List.length otherPath.symm)

theorem lookupLoop_best (normal : Normal table) (plainNames : Plain names) (tail : table.drop i = rest)
    (best : Best table names i fs prefixlen) :
    ∃ len, Best table names table.length (lookupLoop (absolute '/' names) rest i fs prefixlen) len := by
  induction rest generalizing i fs prefixlen with
  | nil =>
    have past : table.length ≤ i := List.drop_eq_nil_iff.mp tail
    refine ⟨prefixlen, ?_⟩
    cases fs with
    | none => exact ⟨best.1, fun j less => best.2 j (Nat.lt_of_lt_of_le less past)⟩
    | some k =>
      obtain ⟨mounted, covers, length, longest⟩ := best
      exact ⟨mounted, covers, length, fun j less => longest j (Nat.lt_of_lt_of_le less past)⟩
  | cons iter rest ih =>
    have inside : table[i]? = some iter := by
      rw [← List.head?_drop, tail]
      rfl
    have next : table.drop (i + 1) = rest := by
      rw [← List.tail_drop, tail]
      rfl
    have own {mounted : List (List Char)} (covers : Covers table i mounted names) :
        iter.ops ≠ none ∧ iter.path = some (absolute '/' mounted) := by
      obtain ⟨_, ⟨fs, at_, occupied, path⟩, _⟩ := covers
      rw [inside, Option.some.injEq] at at_
      rw [at_]
      exact ⟨occupied, path⟩
    rw [lookupLoop]
    split
    case h_1 iterPath ops hasPath hasOps =>
      obtain ⟨path, isPath, mounted, plain, rfl⟩ := normal i iter inside (by simp [hasOps])
      rw [hasPath, Option.some.injEq] at isPath
      have same {other : List (List Char)} (covers : Covers table i other names) :
          absolute '/' other = absolute '/' mounted := by
        have isOther := (own covers).2
        rw [hasPath, isPath, Option.some.injEq] at isOther
        exact isOther.symm
      have accepted := accepts_iff plain plainNames
      simp only [isPath]
      split
      case isTrue short =>
        refine ih next (best.skip fun other covers => ?_)
        rcases short with short | differs
        · rw [same covers]
          exact short
        · have cover := covers.2.2
          rw [absolute_inj covers.1.isName plain.isName (same covers)] at cover
          exact absurd (accepted.mpr cover).1 differs
      case isFalse long =>
        obtain ⟨longer, matching⟩ := not_or.mp long
        split
        case isTrue inner =>
          refine ih next (best.skip fun other covers => ?_)
          have cover := covers.2.2
          rw [absolute_inj covers.1.isName plain.isName (same covers)] at cover
          exact absurd inner (accepted.mpr cover).2
        case isFalse ends =>
          have at_ : MountedAt table i (absolute '/' mounted) :=
            ⟨iter, inside, by simp [hasOps], by rw [hasPath, isPath]⟩
          exact ih next (best.take ⟨plain, at_, accepted.mp ⟨not_not.mp matching, ends⟩⟩ (Nat.le_of_not_lt longer))
    case h_2 other =>
      refine ih next (best.skip fun mounted covers => ?_)
      obtain ⟨occupied, path⟩ := own covers
      obtain ⟨ops, hasOps⟩ := Option.ne_none_iff_exists'.mp occupied
      exact absurd hasOps (other _ _ path)

theorem length_le_of_text {first second : List (List Char)} (plain : Plain first) (plainSecond : Plain second)
    (front : first <+: names) (frontSecond : second <+: names)
    (text : (absolute '/' first).length ≤ (absolute '/' second).length) : first.length ≤ second.length := by
  rcases List.prefix_or_prefix_of_prefix front frontSecond with before | behind
  · exact before.length_le
  · have same := ((prefixed_absolute plainSecond.isName plain.isName).mpr behind).1.eq_of_length_le text
    exact Nat.le_of_eq (congrArg List.length (absolute_inj plainSecond.isName plain.isName same).symm)

theorem looksUp (normal : Normal table) : LooksUp table := by
  intro names plainNames
  have start : Best table names 0 none 0 := ⟨rfl, fun j less => absurd less (Nat.not_lt_zero j)⟩
  obtain ⟨len, best⟩ := lookupLoop_best normal plainNames (List.drop_zero) start
  have bound {j : Nat} {mounted : List (List Char)} (covers : Covers table j mounted names) : j < table.length := by
    obtain ⟨_, ⟨fs, at_, _, _⟩, _⟩ := covers
    exact (List.getElem?_eq_some_iff.mp at_).1
  unfold dfsFilesystemLookup
  generalize lookupLoop (absolute '/' names) table 0 none 0 = found at best ⊢
  cases found with
  | none => exact fun j mounted covers => best.2 j (bound covers) mounted covers
  | some k =>
    obtain ⟨mounted, covers, length, longest⟩ := best
    refine ⟨mounted, covers, fun j other otherCovers => ?_⟩
    exact length_le_of_text otherCovers.1 covers.1 otherCovers.2.2 covers.2.2
      (length ▸ longest j (bound otherCovers) other otherCovers)

end lookup

/-! ## Mount and unmount -/

section calls
variable {table : FilesystemTable} {env : Around} {args : MountArgs} {i j k : Nat} {fs : Filesystem} {path : List Char}

theorem mountedAt_set (inside : k < table.length) :
    MountedAt (table.set k fs) j path ↔ if j = k then fs.ops ≠ none ∧ fs.path = some path else MountedAt table j path := by
  unfold MountedAt
  rw [List.getElem?_set]
  by_cases own : j = k
  · rw [if_pos own.symm, if_pos own, if_pos inside]
    exact ⟨fun ⟨_, same, rest⟩ => Option.some.inj same ▸ rest, fun rest => ⟨fs, rfl, rest⟩⟩
  · rw [if_neg (Ne.symm own), if_neg own]

theorem findEntry_none {fs : Option Nat} :
    findEntry path table i fs = none ↔ ∃ iter ∈ table, iter.ops ≠ none ∧ iter.path = some path := by
  induction table generalizing i fs with
  | nil => simp [findEntry]
  | cons iter rest ih =>
    rw [findEntry]
    by_cases empty : iter.ops = none
    · rw [if_pos empty, ih]
      simp [empty]
    · rw [if_neg empty]
      by_cases own : iter.path = some path
      · rw [if_pos own]
        exact iff_of_true rfl ⟨iter, List.mem_cons_self, empty, own⟩
      · rw [if_neg own, ih]
        simp [own]

theorem findEntry_full {fs : Option Nat} (full : findEntry path table i fs = some none) :
    fs = none ∧ ∀ iter ∈ table, iter.ops ≠ none := by
  induction table generalizing i fs with
  | nil => exact ⟨Option.some.inj full, fun _ none => absurd none List.not_mem_nil⟩
  | cons iter rest ih =>
    rw [findEntry] at full
    split at full
    case isTrue =>
      have isNone := (ih full).1
      split at isNone
      · cases isNone
      · contradiction
    case isFalse occupied =>
      split at full
      case isTrue => cases full
      case isFalse => exact ⟨(ih full).1, List.forall_mem_cons.mpr ⟨occupied, (ih full).2⟩⟩

theorem findEntry_found {fs : Option Nat} (found : findEntry path table i fs = some (some k)) :
    fs = some k ∨ ∃ j iter, k = i + j ∧ table[j]? = some iter ∧ iter.ops = none := by
  induction table generalizing i fs with
  | nil => exact Or.inl (Option.some.inj found)
  | cons iter rest ih =>
    rw [findEntry] at found
    have later (tail : ∃ j iter, k = i + 1 + j ∧ rest[j]? = some iter ∧ iter.ops = none) :
        ∃ j other, k = i + j ∧ (iter :: rest)[j]? = some other ∧ other.ops = none := by
      obtain ⟨j, other, same, at_, none⟩ := tail
      exact ⟨j + 1, other, by omega, by rw [List.getElem?_cons_succ, at_], none⟩
    split at found
    case isTrue empty =>
      rcases ih found with first | tail
      · split at first
        · exact Or.inr ⟨0, iter, (Option.some.inj first).symm, rfl, empty⟩
        · exact Or.inl first
      · exact Or.inr (later tail)
    case isFalse =>
      split at found
      case isTrue => cases found
      case isFalse => exact (ih found).imp id later

/-- The mount passes all checks but the one of the path: the device and the file system are there, the path has a normal
form and names a directory, an entry is free, the device opens, and the file system mounts. -/
def Passes (env : Around) (args : MountArgs) (table : FilesystemTable) : Prop :=
  ∃ devId ops fullpath, env.device args.deviceName = some devId ∧ env.findOps args.filesystemtype = some ops ∧
    ops.mount = true ∧ env.normalizePath args.path = some fullpath ∧
    (fullpath = ['/'] ∨ fullpath = ['/', 'd', 'e', 'v'] ∨ env.isDirectory fullpath = true) ∧
    (∃ fs ∈ table, fs.ops = none) ∧ (∀ dev ∈ devId, env.deviceOpen dev = true) ∧
    env.mount (registered devId fullpath ops args.filesystemtype) ≠ none

/-- `fs` is what a mount puts into the free entry `k`. -/
structure Registers (env : Around) (args : MountArgs) (table : FilesystemTable) (k : Nat) (fs : Filesystem) : Prop where
  free : ∃ old, table[k]? = some old ∧ old.ops = none
  occupied : fs.ops ≠ none
  path : fs.path = env.normalizePath args.path
  some : fs.path ≠ none

theorem set_zero (inv : MountInv table) (free : ∃ old, table[k]? = some old ∧ old.ops = none) (fs : Filesystem) :
    (table.set k fs).set k .zero = table := by
  obtain ⟨old, at_, empty⟩ := free
  obtain ⟨inside, same⟩ := List.getElem?_eq_some_iff.mp at_
  rw [List.set_set, ← inv.zero old (List.mem_of_getElem? at_) empty, ← same, List.set_getElem_self]

theorem mountEntry_cases (inv : MountInv table) (env : Around) (free : ∃ old, table[k]? = some old ∧ old.ops = none)
    (fs : Filesystem) :
    (mountEntry env table k fs = (.failed none, table) ∧
        ¬((∀ dev ∈ fs.devId, env.deviceOpen dev = true) ∧ env.mount fs ≠ none)) ∨
      ((∀ dev ∈ fs.devId, env.deviceOpen dev = true) ∧ env.mount fs ≠ none) ∧
        ∃ data, mountEntry env table k fs = (.ok, table.set k { fs with data }) := by
  unfold mountEntry
  split
  case isTrue fails =>
    obtain ⟨dev, isDev, closed⟩ := fails
    refine Or.inl ⟨by dsimp only; rw [set_zero inv free], fun both => ?_⟩
    exact Bool.false_ne_true (closed.symm.trans (both.1 dev isDev))
  case isFalse opens =>
    split
    case h_1 fails => exact Or.inl ⟨by dsimp only; rw [set_zero inv free], fun both => both.2 fails⟩
    case h_2 data mounts =>
      refine Or.inr ⟨⟨fun dev isDev => ?_, by rw [mounts]; exact Option.some_ne_none data⟩, data, by dsimp only; rw [List.set_set]⟩
      exact eq_true_of_ne_false fun closed => opens ⟨dev, isDev, closed⟩

/-- A mount fails and leaves the table as it was, or passes all checks and puts its entry into a free place. -/
theorem dfsMount_cases (inv : MountInv table) (env : Around) (args : MountArgs) :
    (∃ errno, dfsMount env args table = (.failed errno, table)) ∧
        ¬(Passes env args table ∧ ∀ j, ¬MountedAt table j args.path) ∨
      (Passes env args table ∧ ∀ j, ¬MountedAt table j args.path) ∧
        ∃ k fs, dfsMount env args table = (.ok, table.set k fs) ∧ Registers env args table k fs := by
  unfold dfsMount
  cases device : env.device args.deviceName with
  | none => exact Or.inl ⟨⟨_, rfl⟩, fun ⟨⟨_, _, _, found, _⟩, _⟩ => by simp [device] at found⟩
  | some devId =>
    cases type : env.findOps args.filesystemtype with
    | none => exact Or.inl ⟨⟨_, rfl⟩, fun ⟨⟨_, _, _, _, found, _⟩, _⟩ => by simp [type] at found⟩
    | some ops =>
      by_cases mounts : ops.mount = false
      · simp only [if_pos mounts]
        refine Or.inl ⟨⟨_, rfl⟩, fun ⟨⟨_, _, _, _, found, may, _⟩, _⟩ => ?_⟩
        rw [type, Option.some.injEq] at found
        rw [← found, mounts] at may
        cases may
      simp only [if_neg mounts]
      cases normal : env.normalizePath args.path with
      | none => exact Or.inl ⟨⟨_, rfl⟩, fun ⟨⟨_, _, _, _, _, _, found, _⟩, _⟩ => by simp [normal] at found⟩
      | some fullpath =>
        dsimp only
        split
        case isTrue missing =>
          refine Or.inl ⟨⟨_, rfl⟩, fun ⟨⟨_, _, _, _, _, _, found, exists_, _⟩, _⟩ => ?_⟩
          rw [normal, Option.some.injEq] at found
          rw [← found] at exists_
          simp [missing] at exists_
        case isFalse exists_ =>
          have isThere : fullpath = ['/'] ∨ fullpath = ['/', 'd', 'e', 'v'] ∨ env.isDirectory fullpath = true := by
            by_contra none
            simp only [not_or, Bool.not_eq_true] at none
            exact exists_ none
          cases entry : findEntry args.path table 0 none with
          | none =>
            obtain ⟨iter, inside, occupied, path⟩ := findEntry_none.mp entry
            obtain ⟨j, at_⟩ := List.getElem?_of_mem inside
            exact Or.inl ⟨⟨_, rfl⟩, fun both => both.2 j ⟨iter, at_, occupied, path⟩⟩
          | some found =>
            have free : ∀ j, ¬MountedAt table j args.path := by
              rintro j ⟨iter, at_, occupied, path⟩
              have bad : findEntry args.path table 0 none = none :=
                findEntry_none.mpr ⟨iter, List.mem_of_getElem? at_, occupied, path⟩
              rw [entry] at bad
              cases bad
            cases found with
            | none =>
              refine Or.inl ⟨⟨_, rfl⟩, fun ⟨⟨_, _, _, _, _, _, _, _, ⟨fs, inside, empty⟩, _⟩, _⟩ => ?_⟩
              exact (findEntry_full entry).2 fs inside empty
            | some k =>
              have empty : ∃ old, table[k]? = some old ∧ old.ops = none := by
                rcases findEntry_found entry with none | ⟨j, iter, same, at_, empty⟩
                · cases none
                · rw [Nat.zero_add] at same
                  exact ⟨iter, same ▸ at_, empty⟩
              rcases mountEntry_cases inv env empty (registered devId fullpath ops args.filesystemtype) with
                ⟨fails, not⟩ | ⟨⟨opens, goes⟩, data, done⟩
              · refine Or.inl ⟨⟨_, fails⟩, fun ⟨⟨dev, other, full, isDev, isType, _, isFull, _, _, opens, goes⟩, _⟩ => not ?_⟩
                rw [device, Option.some.injEq] at isDev
                rw [type, Option.some.injEq] at isType
                rw [normal, Option.some.injEq] at isFull
                rw [← isDev] at opens goes
                rw [← isType, ← isFull] at goes
                exact ⟨opens, goes⟩
              · have member : ∃ fs ∈ table, fs.ops = none := by
                  obtain ⟨old, at_, none⟩ := empty
                  exact ⟨old, List.mem_of_getElem? at_, none⟩
                refine Or.inr ⟨⟨⟨devId, ops, fullpath, device, type, eq_true_of_ne_false mounts, normal, isThere,
                  member, opens, goes⟩, free⟩, k, _, done, empty, ?_, ?_, ?_⟩
                · exact Option.some_ne_none ops
                · exact normal.symm
                · exact Option.some_ne_none fullpath

theorem MountInv.set (inv : MountInv table) (inside : k < table.length)
    (whole : if fs.ops = none then fs = .zero
      else ∃ path, fs.path = some path ∧ IsNormal path ∧ ∀ j, j ≠ k → ¬MountedAt table j path) :
    MountInv (table.set k fs) where
  normal j other at_ occupied := by
    rw [List.getElem?_set] at at_
    split at at_
    case isTrue own =>
      rw [Option.some.injEq] at at_
      rw [← at_] at occupied ⊢
      rw [if_neg occupied] at whole
      exact whole.imp fun path both => ⟨both.1, both.2.1⟩
    case isFalse => exact inv.normal j other at_ occupied
  distinct i j path first second := by
    have other {l : Nat} (own : fs.ops ≠ none ∧ fs.path = some path) (different : l ≠ k) : ¬MountedAt table l path := by
      rw [if_neg own.1] at whole
      obtain ⟨mounted, isPath, _, free⟩ := whole
      rw [own.2, Option.some.injEq] at isPath
      exact isPath ▸ free l different
    rw [mountedAt_set inside] at first second
    split at first
    case isTrue own =>
      split at second
      case isTrue same => rw [own, same]
      case isFalse different => exact absurd second (other first different)
    case isFalse different =>
      split at second
      case isTrue => exact absurd first (other second different)
      case isFalse => exact inv.distinct i j path first second
  zero other member empty := by
    rcases List.mem_or_eq_of_mem_set member with before | same
    · exact inv.zero other before empty
    · rw [same] at empty ⊢
      rwa [if_pos empty] at whole

theorem dfsUnmount_cases (env : Around) (specialfile : List Char) (table : FilesystemTable) :
    (∃ errno, dfsUnmount env specialfile table = (.failed errno, table)) ∨
      ∃ k, k < table.length ∧ dfsUnmount env specialfile table = (.ok, table.set k .zero) := by
  unfold dfsUnmount
  cases env.normalizePath specialfile with
  | none => exact Or.inl ⟨_, rfl⟩
  | some fullpath =>
    dsimp only
    split
    case h_1 => exact Or.inl ⟨_, rfl⟩
    case h_2 k finds =>
      split
      case isTrue => exact Or.inl ⟨_, rfl⟩
      case isFalse => exact Or.inr ⟨k, (List.findIdx?_eq_some_iff_getElem.mp finds).1, rfl⟩

theorem normalizePath_eq_some {fullpath : List Char} (normal : env.normalizePath path = some fullpath) :
    env.memory = true ∧ IsNormal fullpath := by
  unfold Around.normalizePath at normal
  split at normal
  case isTrue memory => exact ⟨memory, isNormal_dfsNormalizePath normal⟩
  case isFalse => cases normal

theorem act_failed (inv : MountInv table) (call : MountCall) (fails : (call.act table).1 ≠ .ok) :
    (call.act table).2 = table := by
  cases call with
  | mount env args =>
    rcases dfsMount_cases inv env args with ⟨⟨errno, failed⟩, _⟩ | ⟨_, k, fs, done, _⟩
    · exact congrArg Prod.snd failed
    · exact absurd (congrArg Prod.fst done) fails
  | unmount env specialfile =>
    rcases dfsUnmount_cases env specialfile table with ⟨errno, failed⟩ | ⟨k, _, done⟩
    · exact congrArg Prod.snd failed
    · exact absurd (congrArg Prod.fst done) fails

/-- The call is no mount that passes the other checks with a path that is spelled otherwise than its normal form, while
the normal form is mounted. -/
def Spelled (table : FilesystemTable) : MountCall → Prop
  | .unmount _ _ => True
  | .mount env args =>
    Passes env args table → ∀ fullpath, env.normalizePath args.path = some fullpath →
      (∃ i, MountedAt table i fullpath) → args.path = fullpath

theorem MountInv.step {call : MountCall} {next : FilesystemTable} (inv : MountInv table) (spelled : Spelled table call)
    (step : mountStep table call next) : MountInv next := by
  rw [← step]
  cases call with
  | mount env args =>
    change MountInv (dfsMount env args table).2
    rcases dfsMount_cases inv env args with ⟨⟨errno, failed⟩, _⟩ | ⟨⟨passes, free⟩, k, fs, done, registers⟩
    · rwa [failed]
    · rw [done]
      obtain ⟨old, at_, _⟩ := registers.free
      refine inv.set (List.getElem?_eq_some_iff.mp at_).1 ?_
      obtain ⟨fullpath, isPath⟩ := Option.ne_none_iff_exists'.mp registers.some
      have normal : env.normalizePath args.path = some fullpath := registers.path.symm.trans isPath
      rw [if_neg registers.occupied]
      refine ⟨fullpath, isPath, (normalizePath_eq_some normal).2, fun j _ mounted => ?_⟩
      rw [← spelled passes fullpath normal ⟨j, mounted⟩] at mounted
      exact free j mounted
  | unmount env specialfile =>
    change MountInv (dfsUnmount env specialfile table).2
    rcases dfsUnmount_cases env specialfile table with ⟨errno, failed⟩ | ⟨k, inside, done⟩
    · rwa [failed]
    · rw [done]
      exact inv.set inside (if_pos (show Filesystem.zero.ops = none from rfl) ▸ rfl)

theorem spelled_of_distinct {call : MountCall} {next : FilesystemTable} (inv : MountInv table)
    (step : mountStep table call next) (distinct : Distinct next) : Spelled table call := by
  cases call with
  | unmount => trivial
  | mount env args =>
    intro passes fullpath normal ⟨i, mounted⟩
    by_contra differs
    obtain ⟨memory, isNormal⟩ := normalizePath_eq_some normal
    have free : ∀ j, ¬MountedAt table j args.path := by
      rintro j ⟨other, at_, occupied, isPath⟩
      obtain ⟨path, same, normalPath⟩ := inv.normal j other at_ occupied
      rw [isPath, Option.some.injEq] at same
      rw [Around.normalizePath, if_pos memory, dfsNormalizePath_normal _ (same ▸ normalPath), Option.some.injEq] at normal
      exact differs normal
    rcases dfsMount_cases inv env args with ⟨_, not⟩ | ⟨_, k, fs, done, registers⟩
    · exact not ⟨passes, free⟩
    · obtain ⟨old, at_, empty⟩ := registers.free
      have inside := (List.getElem?_eq_some_iff.mp at_).1
      have different : i ≠ k := by
        rintro rfl
        obtain ⟨other, otherAt, occupied, _⟩ := mounted
        rw [at_, Option.some.injEq] at otherAt
        exact occupied (otherAt ▸ empty)
      have isNext : table.set k fs = next := by
        rw [← step]
        exact (congrArg Prod.snd done).symm
      rw [← isNext] at distinct
      refine different (distinct i k fullpath ((mountedAt_set inside).mpr ?_) ((mountedAt_set inside).mpr ?_))
      · rwa [if_neg different]
      · rw [if_pos rfl]
        exact ⟨registers.occupied, registers.path.trans normal⟩

/-- `filesystem_table` at the start -/
def emptyTable (filesystemsMax : Nat) : FilesystemTable := List.replicate filesystemsMax .zero

theorem mountInv_empty (filesystemsMax : Nat) : MountInv (emptyTable filesystemsMax) where
  normal i fs at_ occupied := by
    have member := List.eq_of_mem_replicate (List.mem_of_getElem? at_)
    exact absurd (congrArg Filesystem.ops member) occupied
  distinct i j path mounted _ := by
    obtain ⟨fs, at_, occupied, _⟩ := mounted
    have member := List.eq_of_mem_replicate (List.mem_of_getElem? at_)
    exact absurd (congrArg Filesystem.ops member) occupied
  zero fs inside _ := List.eq_of_mem_replicate inside

theorem MountInv.sound (inv : MountInv table) : SoundTable table where
  normal := inv.normal
  distinct := inv.distinct
  looksUp := looksUp inv.normal

end calls

/-- What the calls are to keep: the table is a sound one in every state, and a call that fails changes nothing. -/
def Kept (filesystemsMax : Nat) (calls : List MountCall) : Prop :=
  Throughout mountStep (emptyTable filesystemsMax) calls SoundTable ∧
    EachStep mountStep (emptyTable filesystemsMax) calls
      fun table call => (call.act table).1 ≠ .ok → (call.act table).2 = table

theorem mounts_kept (filesystemsMax : Nat) (calls : List MountCall) :
    Kept filesystemsMax calls ↔ EachStep mountStep (emptyTable filesystemsMax) calls Spelled := by
  have start := mountInv_empty filesystemsMax
  have throughout : Throughout mountStep (emptyTable filesystemsMax) calls SoundTable ↔
      EachStep mountStep (emptyTable filesystemsMax) calls Spelled :=
    throughout_iff_eachStep (fun _ inv => inv.sound) (fun _ _ _ inv spelled step => inv.step spelled step)
      (fun _ _ _ inv step sound => spelled_of_distinct inv step sound.distinct) start
  refine ⟨fun kept => throughout.mp kept.1, fun spelled => ⟨throughout.mpr spelled, ?_⟩⟩
  intro before call table next inside run step fails
  have inv : MountInv table :=
    spelled.throughout (fun _ _ _ inv spelled step => inv.step spelled step) start before table
      ((List.prefix_append _ _).trans inside) run
  exact act_failed inv call fails

section demo

def tmpEnv : Around where
  directory := none
  memory := true
  deviceFind _ := none
  operationTable := [some { name := ['t', 'm', 'p'], mount := true, unmount := true }]
  isDirectory _ := true
  deviceOpen _ := true
  mount fs := some fs.data
  unmount _ := true

def mountTmp (path : List Char) : MountCall := .mount tmpEnv { deviceName := none, path, filesystemtype := ['t', 'm', 'p'] }

theorem mounts_kept_twice : ¬ ∀ calls, Kept 4 calls := by
  intro claimed
  let calls := [mountTmp ['/'], mountTmp ['/', '/']]
  have run : Run mountStep (emptyTable 4) calls (calls.foldl (fun table call => (call.act table).2) (emptyTable 4)) :=
    .snoc (.snoc (.nil _) rfl) rfl
  have sound := (claimed calls).1 calls _ List.prefix_rfl run
  have same := sound.distinct 0 1 ['/'] ⟨_, rfl, by decide, by decide⟩ ⟨_, rfl, by decide, by decide⟩
  cases same

end demo

end RtThread.Dfs
