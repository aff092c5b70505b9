import RtThread.Dfs.Ramfs

/-! `ramfs` against a map from names to byte strings. -/

set_option autoImplicit false
namespace RtThread.Dfs
open Lib
open Function (update update_of_ne update_self)

def RamfsDirent.content (d : RamfsDirent) : List UInt8 := (List.range d.size).map d.data

/-- `bytes` with `buf` at `pos` -/
def overwrite (bytes : List UInt8) (pos : Nat) (buf : List UInt8) : List UInt8 :=
  bytes.take pos ++ buf ++ bytes.drop (pos + buf.length)

abbrev NameMap := RamPath → Option (List UInt8)

def NameMap.track (m : NameMap) (files : OpenFiles RamPath Nat) : RamfsAction → RamfsResult → NameMap
  | .open _ path flags _, .ok _ =>
    if flags.trunc ∧ flags.directory = false then Function.update m path (some [])
    else if m path = none then Function.update m path (some [])
    else m
  | .write h buf _ _, .ok n =>
    match files.file h with
    | none => m
    | some f =>
      if n = buf.length then Function.update m f.path ((m f.path).map fun bytes => overwrite bytes f.pos buf) else m
  | .unlink path, .ok _ => Function.update m path none
  | .rename oldpath newpath, .ok _ => Function.update (Function.update m newpath (m oldpath)) oldpath none
  | _, _ => m

structure RamfsWorld where
  fs : Ramfs
  map : NameMap

namespace RamfsWorld

def step (w : RamfsWorld) (a : RamfsAction) : Option (RamfsWorld × RamfsResult) :=
  (w.fs.act a).map fun done => ({ fs := done.1, map := w.map.track w.fs.files a done.2 }, done.2)

def Step (w : RamfsWorld) (a : RamfsAction) (w' : RamfsWorld) : Prop := ∃ r, w.step a = some (w', r)

def init : RamfsWorld where
  fs := Ramfs.init
  map path := if path.name = [] then some [] else none

/-- What is to hold in every state: a lookup finds the names of the map, each with its bytes, and a read from an open file
gets the bytes behind its position. -/
structure Sound (w : RamfsWorld) : Prop where
  lookup : ∀ path : RamPath, (w.fs.lookup path.text).map (fun id => (w.fs.dirent id).content) = w.map path
  reads : ∀ h f v count, w.fs.files.file h = some f → w.fs.files.vnode f.path = some v →
    ∃ bytes, w.map f.path = some bytes ∧ w.fs.ramfsRead v f.pos count = (bytes.drop f.pos).take count
  fault : w.fs.fault = false

/-- The steps that keep the map: an open that truncates finds the file closed, or empty; the root is not unlinked; and no
file is renamed. -/
def Allowed (w : RamfsWorld) : RamfsAction → Prop
  | .open _ path flags _ =>
    flags.trunc = true → flags.directory = false → ∀ v, w.fs.files.vnode path = some v → v.type ≠ .directory → v.size = 0
  | .unlink path => path.name = [] → w.fs.files.vnode path ≠ none
  | .rename oldpath newpath =>
    w.fs.files.vnode oldpath ≠ none ∨
      newpath.name ≠ [] ∧ (w.map newpath ≠ none ∨ oldpath.name ≠ [] ∧ w.map oldpath = none)
  | _ => True

end RamfsWorld

/-! ## Bytes -/

section bytes
variable {d : RamfsDirent} {pos : Nat} {buf : List UInt8}

theorem length_content : d.content.length = d.size := by
  rw [RamfsDirent.content, List.length_map, List.length_range]

theorem getElem?_content (i : Nat) : d.content[i]? = if i < d.size then some (d.data i) else none := by
  rw [RamfsDirent.content, List.getElem?_map]
  split
  case isTrue less => rw [List.getElem?_range less, Option.map_some]
  case isFalse out => rw [List.getElem?_eq_none (by rw [List.length_range]; omega), Option.map_none]

theorem getElem?_overwrite {bytes : List UInt8} (inside : pos ≤ bytes.length) (i : Nat) :
    (overwrite bytes pos buf)[i]? = if pos ≤ i ∧ i < pos + buf.length then buf[i - pos]? else bytes[i]? := by
  have front : (bytes.take pos).length = pos := by rw [List.length_take]; omega
  rw [overwrite, List.append_assoc]
  by_cases before : i < pos
  · rw [List.getElem?_append_left (by omega), List.getElem?_take_of_lt before, if_neg (by omega)]
  · rw [List.getElem?_append_right (by omega), front]
    by_cases within : i < pos + buf.length
    · rw [List.getElem?_append_left (by omega), if_pos ⟨by omega, within⟩]
    · rw [List.getElem?_append_right (by omega), List.getElem?_drop, if_neg (by omega)]
      congr 1
      omega

theorem getElem?_getD (i : Nat) (less : i < buf.length) : buf[i]? = some (buf.getD i 0) := by
  rw [List.getD_eq_getElem?_getD, List.getElem?_eq_getElem less, Option.getD_some]

theorem content_copyIn (inside : pos + buf.length ≤ d.size) :
    (Ramfs.copyIn d pos buf).content = overwrite d.content pos buf := by
  apply List.ext_getElem?
  intro i
  rw [getElem?_content, getElem?_overwrite (by rw [length_content]; omega), getElem?_content]
  change (if i < d.size then some (if _ then _ else _) else none) = _
  by_cases within : pos ≤ i ∧ i < pos + buf.length
  · rw [if_pos within, if_pos within, if_pos (by omega), getElem?_getD _ (by omega)]
  · rw [if_neg within, if_neg within]

theorem content_grown (grown : Nat → UInt8) (inside : pos ≤ d.size) (more : d.size < pos + buf.length) :
    (Ramfs.copyIn (Ramfs.realloc d (pos + buf.length) grown) pos buf).content = overwrite d.content pos buf := by
  apply List.ext_getElem?
  intro i
  rw [getElem?_content, getElem?_overwrite (by rw [length_content]; exact inside), getElem?_content]
  change (if i < pos + buf.length then some (if _ then _ else if i < d.size then _ else _) else none) = _
  by_cases within : pos ≤ i ∧ i < pos + buf.length
  · rw [if_pos within, if_pos within, if_pos within.2, getElem?_getD _ (by omega)]
  · rw [if_neg within, if_neg within]
    by_cases less : i < d.size
    · rw [if_pos less, if_pos less, if_pos (by omega)]
    · rw [if_neg (by omega), if_neg less]

theorem ramfsRead_eq (s : Ramfs) (v : Vnode Nat) (pos count : Nat) (size : v.size = (s.dirent v.data).size) :
    s.ramfsRead v pos count = ((s.dirent v.data).content.drop pos).take count := by
  apply List.ext_getElem?
  intro i
  unfold Ramfs.ramfsRead
  rw [List.getElem?_map, List.getElem?_take, List.getElem?_drop, getElem?_content, ← size]
  by_cases less : i < count
  · rw [if_pos less]
    by_cases inside : pos + i < v.size
    · rw [if_pos inside, List.getElem?_range (by split <;> omega), Option.map_some]
    · rw [if_neg inside, List.getElem?_eq_none (by rw [List.length_range]; split <;> omega), Option.map_none]
  · rw [if_neg less, List.getElem?_eq_none (by rw [List.length_range]; split <;> omega), Option.map_none]

end bytes

/-! ## Names and entries -/

namespace RamPath

theorem ext_name {p q : RamPath} (same : p.name = q.name) : p = q := by
  cases p
  cases q
  cases same
  rfl

theorem subpath_text (p : RamPath) : Ramfs.subpath p.text = p.name := by
  rw [Ramfs.subpath, text, List.dropWhile_cons_of_pos (by simp)]
  have first := p.first
  cases name : p.name with
  | nil => rfl
  | cons c rest =>
    rw [name] at first
    exact List.dropWhile_cons_of_neg (by simpa using first)

end RamPath

namespace Ramfs

variable {s : Ramfs} {p q : RamPath} {id : Nat}

/-- The entry `id` has the path: it is the root, or it stands in the list with the name. -/
def At (s : Ramfs) (p : RamPath) (id : Nat) : Prop :=
  if p.name = [] then id = 0 else id ∈ s.list ∧ (s.dirent id).name = p.name

structure Entries (s : Ramfs) : Prop where
  names : ∀ id ∈ s.list, ∃ p : RamPath, p.name ≠ [] ∧ (s.dirent id).name = p.name
  unique : ∀ id ∈ s.list, ∀ other ∈ s.list, (s.dirent id).name = (s.dirent other).name → id = other
  ids : ∀ id ∈ s.list, 0 < id ∧ id < s.fresh
  nodup : s.list.Nodup

theorem At.unique (entries : s.Entries) {other : Nat} (first : s.At p id) (second : s.At p other) : id = other := by
  unfold At at first second
  split at first
  case isTrue root =>
    rw [if_pos root] at second
    exact first.trans second.symm
  case isFalse named =>
    rw [if_neg named] at second
    exact entries.unique id first.1 other second.1 (first.2.trans second.2.symm)

theorem At.path (entries : s.Entries) (first : s.At p id) (second : s.At q id) : p = q := by
  apply RamPath.ext_name
  unfold At at first second
  split at first
  case isTrue root =>
    split at second
    case isTrue other => rw [root, other]
    case isFalse => exact absurd first (Nat.ne_of_gt (entries.ids id second.1).1)
  case isFalse =>
    split at second
    case isTrue => exact absurd second (Nat.ne_of_gt (entries.ids id first.1).1)
    case isFalse => exact first.2.symm.trans second.2

theorem lookup_eq_some (entries : s.Entries) : s.lookup p.text = some id ↔ s.At p id := by
  unfold lookup At
  rw [p.subpath_text]
  split
  · exact ⟨fun same => (Option.some.inj same).symm, fun same => by rw [same]⟩
  case isFalse =>
    constructor
    · intro found
      exact ⟨List.mem_of_find?_eq_some found, by simpa using List.find?_some found⟩
    · rintro ⟨inside, name⟩
      cases found : s.list.find? fun id => (s.dirent id).name = p.name with
      | none =>
        have bad := List.find?_eq_none.mp found id inside
        exact absurd (by simpa using name) bad
      | some other =>
        have isName : (s.dirent other).name = p.name := by simpa using List.find?_some found
        rw [entries.unique other (List.mem_of_find?_eq_some found) id inside (isName.trans name.symm)]

end Ramfs

namespace RamfsWorld

variable {w w' : RamfsWorld}

structure Inv (w : RamfsWorld) : Prop where
  entries : w.fs.Entries
  fresh : 0 < w.fs.fresh
  holds : ∀ path bytes, w.map path = some bytes ↔ ∃ id, w.fs.At path id ∧ (w.fs.dirent id).content = bytes
  tied : w.fs.files.Tied
  nodes : ∀ path v, w.fs.files.vnode path = some v → w.fs.At path v.data ∧ v.size = (w.fs.dirent v.data).size
  pos : ∀ h f v, w.fs.files.file h = some f → w.fs.files.vnode f.path = some v → f.pos ≤ v.size
  fault : w.fs.fault = false

theorem Inv.map_eq (inv : w.Inv) {path : RamPath} {id : Nat} (here : w.fs.At path id) :
    w.map path = some (w.fs.dirent id).content := (inv.holds path _).mpr ⟨id, here, rfl⟩

theorem Inv.map_none (inv : w.Inv) {path : RamPath} : w.map path = none ↔ w.fs.lookup path.text = none := by
  constructor
  · intro absent
    cases found : w.fs.lookup path.text with
    | none => rfl
    | some id =>
      rw [inv.map_eq ((Ramfs.lookup_eq_some inv.entries).mp found)] at absent
      cases absent
  · intro absent
    cases present : w.map path with
    | none => rfl
    | some bytes =>
      obtain ⟨id, here, _⟩ := (inv.holds path bytes).mp present
      rw [(Ramfs.lookup_eq_some inv.entries).mpr here] at absent
      cases absent

theorem Inv.sound (inv : w.Inv) : w.Sound where
  lookup path := by
    cases found : w.fs.lookup path.text with
    | none => exact (inv.map_none.mpr found).symm
    | some id => exact (inv.map_eq ((Ramfs.lookup_eq_some inv.entries).mp found)).symm
  reads h f v count _ here := by
    obtain ⟨at_, size⟩ := inv.nodes f.path v here
    exact ⟨_, inv.map_eq at_, ramfsRead_eq w.fs v f.pos count size⟩
  fault := inv.fault

/-! ## Steps -/

section
variable (inv : w.Inv)
include inv

theorem Inv.setFiles (files : OpenFiles RamPath Nat) (tied : files.Tied)
    (nodes : ∀ path v, files.vnode path = some v →
      ∃ u, w.fs.files.vnode path = some u ∧ v.data = u.data ∧ v.size = u.size)
    (pos : ∀ h f v, files.file h = some f → files.vnode f.path = some v → f.pos ≤ v.size) :
    Inv { fs := { w.fs with files }, map := w.map } where
  entries := ⟨inv.entries.names, inv.entries.unique, inv.entries.ids, inv.entries.nodup⟩
  fresh := inv.fresh
  holds := inv.holds
  tied := tied
  nodes path v here := by
    obtain ⟨u, old, data, size⟩ := nodes path v here
    rw [data, size]
    exact inv.nodes path u old
  pos := pos
  fault := inv.fault

theorem Inv.setPos {h pos : Nat} {f : File RamPath} {v : Vnode Nat} (isOpen : w.fs.files.file h = some f)
    (here : w.fs.files.vnode f.path = some v) (inside : pos ≤ v.size) :
    Inv { fs := { w.fs with files := w.fs.files.setPos h f.path pos }, map := w.map } := by
  refine inv.setFiles _ (inv.tied.setPos isOpen pos) (fun path u isU => ⟨u, isU, rfl, rfl⟩) fun k g u isG isU => ?_
  change update w.fs.files.file h _ k = some g at isG
  by_cases own : k = h
  · rw [own, update_self, Option.some.injEq] at isG
    rw [← isG] at isU ⊢
    rw [show w.fs.files.vnode f.path = some u from isU, Option.some.injEq] at here
    rw [here]
    exact inside
  · rw [update_of_ne own] at isG
    exact inv.pos k g u isG isU

theorem Inv.setDirent {path : RamPath} {id : Nat} (here : w.fs.At path id) (d : RamfsDirent)
    (name : d.name = (w.fs.dirent id).name) (files : OpenFiles RamPath Nat) (tied : files.Tied)
    (nodes : ∀ q v, files.vnode q = some v →
      q = path ∧ v.data = id ∧ v.size = d.size ∨ q ≠ path ∧ w.fs.files.vnode q = some v)
    (pos : ∀ h f v, files.file h = some f → files.vnode f.path = some v → f.pos ≤ v.size) :
    Inv { fs := { w.fs.setDirent id d with files }, map := update w.map path (some d.content) } := by
  have names (other : Nat) : ((w.fs.setDirent id d).dirent other).name = (w.fs.dirent other).name := by
    change (update w.fs.dirent id d other).name = _
    by_cases own : other = id
    · rw [own, update_self, name]
    · rw [update_of_ne own]
  have at_ (q : RamPath) (other : Nat) : Ramfs.At { w.fs.setDirent id d with files } q other ↔ w.fs.At q other := by
    unfold Ramfs.At
    rw [names other]
    rfl
  have others {q : RamPath} {other : Nat} (there : w.fs.At q other) (differs : q ≠ path) :
      (w.fs.setDirent id d).dirent other = w.fs.dirent other := by
    have apart : other ≠ id := by
      intro same
      rw [same] at there
      exact differs (Ramfs.At.path inv.entries there here)
    exact update_of_ne apart _ _
  have self : (w.fs.setDirent id d).dirent id = d := update_self _ _ _
  refine ⟨⟨?_, ?_, inv.entries.ids, inv.entries.nodup⟩, inv.fresh, ?_, tied, ?_, pos, inv.fault⟩
  · intro other inside
    rw [names other]
    exact inv.entries.names other inside
  · intro other inside another inside' same
    rw [names other, names another] at same
    exact inv.entries.unique other inside another inside' same
  · intro q bytes
    change update w.map path (some d.content) q = some bytes ↔
      ∃ other, Ramfs.At _ q other ∧ ((w.fs.setDirent id d).dirent other).content = bytes
    simp only [at_]
    by_cases own : q = path
    · rw [own, update_self]
      constructor
      · rintro ⟨⟩
        exact ⟨id, here, by rw [self]⟩
      · rintro ⟨other, there, rfl⟩
        rw [Ramfs.At.unique inv.entries there here, self]
    · rw [update_of_ne own, inv.holds q bytes]
      refine exists_congr fun other => and_congr_right fun there => ?_
      rw [others there own]
  · intro q v isV
    rw [at_]
    change _ ∧ v.size = ((w.fs.setDirent id d).dirent v.data).size
    rcases nodes q v isV with ⟨rfl, data, size⟩ | ⟨differs, old⟩
    · rw [data, self]
      exact ⟨here, size⟩
    · obtain ⟨there, size⟩ := inv.nodes q v old
      rw [others there differs]
      exact ⟨there, size⟩

theorem Inv.create {path : RamPath} (named : path.name ≠ []) (absent : ∀ id, ¬w.fs.At path id) :
    Inv { fs := w.fs.create path.text, map := update w.map path (some []) } := by
  have fresh : w.fs.fresh ∉ w.fs.list := fun inside => Nat.lt_irrefl _ (inv.entries.ids _ inside).2
  have kept {id : Nat} (inside : id ∈ w.fs.list) : (w.fs.create path.text).dirent id = w.fs.dirent id := by
    have apart : id ≠ w.fs.fresh := fun same => fresh (same ▸ inside)
    exact update_of_ne apart _ _
  have created := update_self w.fs.fresh
    { name := (Ramfs.subpath path.text).take ramfsNameMax, data := fun _ => 0, size := 0 } w.fs.dirent
  have self : ((w.fs.create path.text).dirent w.fs.fresh).name = path.name := by
    rw [show (w.fs.create path.text).dirent w.fs.fresh = _ from created]
    change (Ramfs.subpath path.text).take ramfsNameMax = path.name
    rw [path.subpath_text, List.take_of_length_le (Nat.le_of_lt path.short)]
  have at_ (q : RamPath) (id : Nat) :
      (w.fs.create path.text).At q id ↔ q = path ∧ id = w.fs.fresh ∨ q ≠ path ∧ w.fs.At q id := by
    unfold Ramfs.At
    change (if q.name = [] then _ else id ∈ w.fs.fresh :: w.fs.list ∧ _) ↔ _
    by_cases root : q.name = []
    · have differs : q ≠ path := fun same => named (same ▸ root)
      simp [root, differs]
    · rw [if_neg root, if_neg root, List.mem_cons]
      by_cases own : id = w.fs.fresh
      · rw [own, self]
        have out : ¬(w.fs.fresh ∈ w.fs.list ∧ (w.fs.dirent w.fs.fresh).name = q.name) := fun both => fresh both.1
        simp only [true_or, true_and, out, and_false, or_false]
        exact ⟨fun same => ⟨(RamPath.ext_name same).symm, trivial⟩, fun both => by rw [both.1]⟩
      · simp only [own, false_or, and_false]
        constructor
        · rintro ⟨inside, name⟩
          rw [kept inside] at name
          refine ⟨fun same => absent id ?_, inside, name⟩
          rw [Ramfs.At, if_neg named]
          exact ⟨inside, by rw [name, same]⟩
        · rintro ⟨_, inside, name⟩
          exact ⟨inside, by rw [kept inside]; exact name⟩
  have dirent {q : RamPath} {id : Nat} (there : w.fs.At q id) : (w.fs.create path.text).dirent id = w.fs.dirent id := by
    unfold Ramfs.At at there
    split at there
    case isTrue =>
      rw [there]
      exact update_of_ne (Nat.ne_of_lt inv.fresh) _ _
    case isFalse => exact kept there.1
  refine ⟨⟨?_, ?_, ?_, ?_⟩, Nat.succ_pos _, ?_, inv.tied, ?_, inv.pos, inv.fault⟩
  · intro id inside
    rcases List.mem_cons.mp inside with same | old
    · rw [same]
      exact ⟨path, named, self⟩
    · change ∃ p : RamPath, p.name ≠ [] ∧ ((w.fs.create path.text).dirent id).name = p.name
      rw [kept old]
      exact inv.entries.names id old
  · have noTwin {id : Nat} (inside : id ∈ w.fs.list) : (w.fs.dirent id).name ≠ path.name := by
      intro same
      refine absent id ?_
      rw [Ramfs.At, if_neg named]
      exact ⟨inside, same⟩
    intro id inside other insideOther same
    change ((w.fs.create path.text).dirent id).name = ((w.fs.create path.text).dirent other).name at same
    rcases List.mem_cons.mp inside with isFresh | old <;> rcases List.mem_cons.mp insideOther with isFresh' | old'
    · rw [isFresh, isFresh']
    · rw [isFresh, self, kept old'] at same
      exact absurd same.symm (noTwin old')
    · rw [isFresh', self, kept old] at same
      exact absurd same (noTwin old)
    · rw [kept old, kept old'] at same
      exact inv.entries.unique id old other old' same
  · intro id inside
    rcases List.mem_cons.mp inside with same | old
    · rw [same]
      exact ⟨inv.fresh, Nat.lt_succ_self _⟩
    · exact ⟨(inv.entries.ids id old).1, Nat.lt_succ_of_lt (inv.entries.ids id old).2⟩
  · exact List.nodup_cons.mpr ⟨fresh, inv.entries.nodup⟩
  · intro q bytes
    change update w.map path (some []) q = some bytes ↔
      ∃ id, (w.fs.create path.text).At q id ∧ ((w.fs.create path.text).dirent id).content = bytes
    simp only [at_]
    by_cases own : q = path
    · rw [own, update_self]
      have empty : ((w.fs.create path.text).dirent w.fs.fresh).content = [] := by
        rw [show (w.fs.create path.text).dirent w.fs.fresh = _ from created]
        rfl
      simp [empty]
    · rw [update_of_ne own, inv.holds q bytes]
      simp only [own, false_and, ne_eq, not_false_iff, true_and, false_or]
      refine exists_congr fun id => and_congr_right fun there => ?_
      rw [dirent there]
  · intro q v isV
    obtain ⟨there, size⟩ := inv.nodes q v isV
    have differs : q ≠ path := fun same => absent v.data (same ▸ there)
    refine ⟨(at_ q v.data).mpr (Or.inr ⟨differs, there⟩), ?_⟩
    change v.size = ((w.fs.create path.text).dirent v.data).size
    rw [dirent there]
    exact size

theorem Inv.erase {path : RamPath} {id : Nat} (named : path.name ≠ []) (here : w.fs.At path id)
    (closed : w.fs.files.vnode path = none) :
    Inv { fs := { w.fs with list := w.fs.list.erase id }, map := update w.map path none } := by
  have at_ (q : RamPath) (other : Nat) :
      Ramfs.At { w.fs with list := w.fs.list.erase id } q other ↔ q ≠ path ∧ w.fs.At q other := by
    unfold Ramfs.At
    by_cases root : q.name = []
    · have differs : q ≠ path := fun same => named (same ▸ root)
      simp [root, differs]
    · rw [if_neg root, if_neg root]
      change other ∈ w.fs.list.erase id ∧ _ ↔ _
      rw [inv.entries.nodup.mem_erase_iff]
      rw [Ramfs.At, if_neg named] at here
      constructor
      · rintro ⟨⟨apart, inside⟩, name⟩
        refine ⟨fun same => apart ?_, inside, name⟩
        rw [same] at name
        exact inv.entries.unique other inside id here.1 (name.trans here.2.symm)
      · rintro ⟨differs, inside, name⟩
        refine ⟨⟨fun same => differs ?_, inside⟩, name⟩
        rw [same] at name
        exact RamPath.ext_name (name.symm.trans here.2)
  have sub : (w.fs.list.erase id).Sublist w.fs.list := List.erase_sublist
  refine ⟨⟨?_, ?_, ?_, ?_⟩, inv.fresh, ?_, inv.tied, ?_, inv.pos, inv.fault⟩
  · exact fun other inside => inv.entries.names other (sub.subset inside)
  · exact fun other inside another inside' =>
      inv.entries.unique other (sub.subset inside) another (sub.subset inside')
  · exact fun other inside => inv.entries.ids other (sub.subset inside)
  · exact inv.entries.nodup.sublist sub
  · intro q bytes
    simp only [at_]
    by_cases own : q = path
    · rw [own, update_self]
      simp
    · rw [update_of_ne own, inv.holds q bytes]
      simp [own]
  · intro q v isV
    obtain ⟨there, size⟩ := inv.nodes q v isV
    have differs : q ≠ path := by
      intro same
      rw [same, closed] at isV
      cases isV
    exact ⟨(at_ q v.data).mpr ⟨differs, there⟩, size⟩

theorem Inv.enter {h id pos : Nat} {path : RamPath} (closed : w.fs.files.file h = none)
    (free : w.fs.files.vnode path = none) (here : w.fs.At path id) (type : FileType)
    (inside : pos ≤ (w.fs.dirent id).size) :
    Inv { fs := { w.fs with files := w.fs.files.enter h path type (w.fs.dirent id).size id pos }, map := w.map } where
  entries := ⟨inv.entries.names, inv.entries.unique, inv.entries.ids, inv.entries.nodup⟩
  fresh := inv.fresh
  holds := inv.holds
  tied := inv.tied.enter closed free type _ id pos
  nodes q v isV := by
    change update w.fs.files.vnode path _ q = some v at isV
    by_cases own : q = path
    · rw [own, update_self, Option.some.injEq] at isV
      rw [← isV, own]
      exact ⟨here, rfl⟩
    · rw [update_of_ne own] at isV
      exact inv.nodes q v isV
  pos k f v isF isV := by
    change update w.fs.files.vnode path _ f.path = some v at isV
    change update w.fs.files.file h _ k = some f at isF
    by_cases own : k = h
    · rw [own, update_self, Option.some.injEq] at isF
      rw [← isF, update_self, Option.some.injEq] at isV
      rw [← isF, ← isV]
      exact inside
    · rw [update_of_ne own] at isF
      have differs : f.path ≠ path := by
        intro same
        obtain ⟨u, isU, _⟩ := inv.tied.vnode isF
        rw [same, free] at isU
        cases isU
      rw [update_of_ne differs] at isV
      exact inv.pos k f v isF isV
  fault := inv.fault

theorem Inv.share {h : Nat} {path : RamPath} {v : Vnode Nat} (closed : w.fs.files.file h = none)
    (here : w.fs.files.vnode path = some v) (type : FileType) :
    Inv { fs := { w.fs with files := w.fs.files.share h path type v }, map := w.map } := by
  have nodes (q : RamPath) (u : Vnode Nat) (isU : (w.fs.files.share h path type v).vnode q = some u) :
      ∃ old, w.fs.files.vnode q = some old ∧ u.data = old.data ∧ u.size = old.size := by
    change update w.fs.files.vnode path _ q = some u at isU
    by_cases own : q = path
    · rw [own, update_self, Option.some.injEq] at isU
      rw [own, ← isU]
      exact ⟨v, here, rfl, rfl⟩
    · rw [update_of_ne own] at isU
      exact ⟨u, isU, rfl, rfl⟩
  refine inv.setFiles _ (inv.tied.share closed here type) nodes fun k f u isF isU => ?_
  change update w.fs.files.file h _ k = some f at isF
  by_cases own : k = h
  · rw [own, update_self, Option.some.injEq] at isF
    rw [← isF]
    exact Nat.zero_le _
  · rw [update_of_ne own] at isF
    obtain ⟨old, isOld, _, size⟩ := nodes f.path u isU
    rw [size]
    exact inv.pos k f old isF isOld

theorem Inv.leave {h : Nat} {f : File RamPath} {v : Vnode Nat} (isOpen : w.fs.files.file h = some f)
    (here : w.fs.files.vnode f.path = some v) :
    Inv { fs := { w.fs with files := w.fs.files.leave h f.path v }, map := w.map } := by
  have nodes (q : RamPath) (u : Vnode Nat) (isU : (w.fs.files.leave h f.path v).vnode q = some u) :
      ∃ old, w.fs.files.vnode q = some old ∧ u.data = old.data ∧ u.size = old.size := by
    change update w.fs.files.vnode f.path _ q = some u at isU
    by_cases own : q = f.path
    · rw [own, update_self] at isU
      rw [own]
      split at isU
      case isTrue => cases isU
      case isFalse =>
        rw [← Option.some.inj isU]
        exact ⟨v, here, rfl, rfl⟩
    · rw [update_of_ne own] at isU
      exact ⟨u, isU, rfl, rfl⟩
  refine inv.setFiles _ (inv.tied.leave isOpen here) nodes fun k g u isG isU => ?_
  change update w.fs.files.file h _ k = some g at isG
  by_cases own : k = h
  · rw [own, update_self] at isG
    cases isG
  · rw [update_of_ne own] at isG
    obtain ⟨old, isOld, _, size⟩ := nodes g.path u isU
    rw [size]
    exact inv.pos k g old isG isOld

theorem Inv.ramfsOpen (h : Nat) {path : RamPath} {flags : OpenFlags} {memory : Bool} {s : Ramfs} {id : Nat}
    {type : FileType} (free : w.fs.files.vnode path = none)
    (done : w.fs.ramfsOpen path.text flags memory = .ok (s, id, type)) :
    s.files = w.fs.files ∧ s.At path id ∧
      Inv { fs := s, map := w.map.track w.fs.files (.open h path flags memory) (.ok 0) } := by
  have truncated {w : RamfsWorld} (inv : w.Inv) (free : w.fs.files.vnode path = none) {id : Nat} (here : w.fs.At path id) :
      (w.fs.truncate id).files = w.fs.files ∧ (w.fs.truncate id).At path id ∧
        Inv { fs := w.fs.truncate id, map := update w.map path (some []) } := by
    refine ⟨rfl, ?_, ?_⟩
    · unfold Ramfs.At at here ⊢
      rw [Ramfs.truncate, Ramfs.setDirent]
      simpa only [update_self] using here
    · refine inv.setDirent here { w.fs.dirent id with data := fun _ => 0, size := 0 } rfl w.fs.files inv.tied
        (fun q v isV => Or.inr ⟨fun same => ?_, isV⟩) inv.pos
      rw [same, free] at isV
      cases isV
  unfold Ramfs.ramfsOpen at done
  by_cases directory : flags.directory
  · rw [if_pos directory] at done
    split at done
    case isTrue => cases done
    case isFalse =>
      cases found : w.fs.lookup path.text with
      | none =>
        rw [found] at done
        cases done
      | some other =>
        rw [found] at done
        obtain ⟨rfl, rfl, rfl⟩ := done
        have here := (Ramfs.lookup_eq_some inv.entries).mp found
        refine ⟨rfl, here, ?_⟩
        simp only [NameMap.track, directory, Bool.true_eq_false, and_false, if_false, inv.map_eq here, reduceCtorEq]
        exact inv
  · have plain : flags.directory = false := by simpa using directory
    rw [if_neg directory] at done
    cases found : w.fs.lookup path.text with
    | some other =>
      have here := (Ramfs.lookup_eq_some inv.entries).mp found
      simp only [found] at done
      split at done
      case isTrue => cases done
      case isFalse =>
        split at done
        case isTrue trunc =>
          obtain ⟨rfl, rfl, rfl⟩ := done
          simp only [NameMap.track, trunc, plain, and_self, if_true]
          exact truncated inv free here
        case isFalse keep =>
          obtain ⟨rfl, rfl, rfl⟩ := done
          refine ⟨rfl, here, ?_⟩
          simp only [NameMap.track, keep, false_and, if_false, inv.map_eq here, reduceCtorEq]
          exact inv
    | none =>
      have absent (id : Nat) (here : w.fs.At path id) : False := by
        rw [(Ramfs.lookup_eq_some inv.entries).mpr here] at found
        cases found
      have named : path.name ≠ [] := by
        intro root
        apply absent 0
        rw [Ramfs.At, if_pos root]
      have created := inv.create named absent
      have here : (w.fs.create path.text).At path w.fs.fresh := by
        rw [Ramfs.At, if_neg named]
        refine ⟨List.mem_cons_self, ?_⟩
        change (update w.fs.dirent w.fs.fresh _ w.fs.fresh).name = path.name
        rw [update_self]
        change (Ramfs.subpath path.text).take ramfsNameMax = path.name
        rw [path.subpath_text, List.take_of_length_le (Nat.le_of_lt path.short)]
      simp only [found] at done
      split at done
      case isFalse => cases done
      case isTrue =>
        split at done
        case isTrue => cases done
        case isFalse =>
          split at done
          case isTrue trunc =>
            obtain ⟨rfl, rfl, rfl⟩ := done
            simp only [NameMap.track, trunc, plain, and_self, if_true]
            have both := truncated created free here
            rwa [Function.update_idem] at both
          case isFalse keep =>
            obtain ⟨rfl, rfl, rfl⟩ := done
            refine ⟨rfl, here, ?_⟩
            simp only [NameMap.track, keep, inv.map_none.mpr found, if_true]
            exact created

end

theorem step_eq {a : RamfsAction} (step : w.Step a w') :
    ∃ r, w.fs.act a = some (w'.fs, r) ∧ w'.map = w.map.track w.fs.files a r := by
  obtain ⟨r, done⟩ := step
  unfold RamfsWorld.step at done
  cases acted : w.fs.act a with
  | none =>
    rw [acted] at done
    cases done
  | some next =>
    rw [acted] at done
    obtain ⟨rfl, rfl⟩ := done
    exact ⟨next.2, rfl, rfl⟩

theorem Inv.of_eq {fs : Ramfs} {map : NameMap} (inv : Inv { fs, map }) (sameFs : w.fs = fs) (sameMap : w.map = map) :
    w.Inv := by
  cases w
  cases sameFs
  cases sameMap
  exact inv

theorem Inv.open (inv : w.Inv) {h : Nat} {path : RamPath} {flags : OpenFlags} {memory : Bool}
    (closed : w.fs.files.file h = none) (allowed : w.Allowed (.open h path flags memory)) :
    Inv
      { fs := (w.fs.fileOpen h path flags memory).1
        map := w.map.track w.fs.files (.open h path flags memory) (w.fs.fileOpen h path flags memory).2 } := by
  unfold Ramfs.fileOpen
  cases here : w.fs.files.vnode path with
  | some v =>
    simp only
    split
    case isTrue => exact inv
    case isFalse enters =>
      obtain ⟨there, size⟩ := inv.nodes path v here
      have present := inv.map_eq there
      have shared := inv.share closed here (if flags.directory then .directory else v.type)
      refine shared.of_eq rfl ?_
      change (if _ then _ else if _ then _ else w.map) = w.map
      rw [present, if_neg (Option.some_ne_none _)]
      split
      case isFalse => rfl
      case isTrue empties =>
        have regular : v.type ≠ .directory := fun isDirectory => enters ⟨isDirectory, empties.2⟩
        have none := allowed empties.1 empties.2 v here regular
        rw [size] at none
        rw [Function.update_eq_self_iff, present, RamfsDirent.content, none]
        rfl
  | none =>
    simp only
    cases done : w.fs.ramfsOpen path.text flags memory with
    | error => exact inv
    | ok next =>
      obtain ⟨s, id, type⟩ := next
      obtain ⟨files, there, opened⟩ := inv.ramfsOpen h here done
      simp only
      refine opened.enter ?_ ?_ there type ?_
      · rw [files]
        exact closed
      · rw [files]
        exact here
      · split
        · exact Nat.le_refl _
        · exact Nat.zero_le _

theorem Inv.write (inv : w.Inv) {h : Nat} {f : File RamPath} {v : Vnode Nat} (isOpen : w.fs.files.file h = some f)
    (here : w.fs.files.vnode f.path = some v) (buf : List UInt8) (memory : Bool) (grown : Nat → UInt8) :
    Inv
      { fs := (w.fs.ramfsWrite h f.path v f.pos buf memory grown).1
        map := w.map.track w.fs.files (.write h buf memory grown)
          (w.fs.ramfsWrite h f.path v f.pos buf memory grown).2 } := by
  obtain ⟨there, size⟩ := inv.nodes f.path v here
  have inside := inv.pos h f v isOpen here
  have present := inv.map_eq there
  have written (d : RamfsDirent) (content : d.content = overwrite (w.fs.dirent v.data).content f.pos buf) :
      w.map.track w.fs.files (.write h buf memory grown) (.ok buf.length) =
        update w.map f.path (some d.content) := by
    simp only [NameMap.track, isOpen, if_true, present, Option.map_some, content]
  unfold Ramfs.ramfsWrite
  simp only
  split
  case isTrue more =>
    split
    case isTrue =>
      refine inv.of_eq rfl ?_
      simp only [NameMap.track, isOpen, present, Option.map_some]
      split
      case isFalse => rfl
      case isTrue empty =>
        rw [List.eq_nil_of_length_eq_zero empty.symm, Function.update_eq_self_iff, present, overwrite, List.append_nil,
          List.length_nil, Nat.add_zero, List.take_append_drop]
    case isFalse =>
      rw [written _ (content_grown grown (size ▸ inside) (by omega))]
      refine inv.setDirent there (Ramfs.copyIn (Ramfs.realloc (w.fs.dirent v.data) (f.pos + buf.length) grown) f.pos buf) rfl
        _ ((inv.tied.setSize isOpen here _).setPos isOpen _) ?_ ?_
      · intro q u isU
        change update w.fs.files.vnode f.path _ q = some u at isU
        by_cases own : q = f.path
        · rw [own, update_self, Option.some.injEq] at isU
          rw [← isU]
          exact Or.inl ⟨own, rfl, rfl⟩
        · rw [update_of_ne own] at isU
          exact Or.inr ⟨own, isU⟩
      · intro k g u isG isU
        change update w.fs.files.file h _ k = some g at isG
        change update w.fs.files.vnode f.path _ g.path = some u at isU
        by_cases self : k = h
        · rw [self, update_self, Option.some.injEq] at isG
          rw [← isG, update_self, Option.some.injEq] at isU
          rw [← isG, ← isU]
        · rw [update_of_ne self] at isG
          by_cases own : g.path = f.path
          · rw [own, update_self, Option.some.injEq] at isU
            have old := inv.pos k g v isG (own ▸ here)
            rw [← isU]
            change g.pos ≤ f.pos + buf.length
            omega
          · rw [update_of_ne own] at isU
            exact inv.pos k g u isG isU
  case isFalse fits =>
    rw [written _ (content_copyIn (by omega))]
    refine inv.setDirent there (Ramfs.copyIn (w.fs.dirent v.data) f.pos buf) rfl _ (inv.tied.setPos isOpen _) ?_ ?_
    · intro q u isU
      by_cases own : q = f.path
      · rw [own, show (w.fs.files.setPos h f.path (f.pos + buf.length)).vnode f.path = some v from here,
          Option.some.injEq] at isU
        rw [← isU]
        exact Or.inl ⟨own, rfl, size⟩
      · exact Or.inr ⟨own, isU⟩
    · exact (inv.setPos isOpen here (by omega)).pos

theorem fileRename_allowed (inv : w.Inv) {oldpath newpath : RamPath} (allowed : w.Allowed (.rename oldpath newpath)) :
    ∃ errno, w.fs.fileRename oldpath newpath = (w.fs, .failed errno) := by
  unfold Ramfs.fileRename
  split
  case isTrue => exact ⟨_, rfl⟩
  case isFalse closed =>
    have free : w.fs.files.vnode oldpath = none := Option.isNone_iff_eq_none.mp (by simpa using closed)
    obtain ⟨named, absent⟩ := allowed.resolve_left (not_not.mpr free)
    rw [if_neg named]
    split
    case isTrue => exact ⟨_, rfl⟩
    case isFalse missing =>
      have none : w.fs.lookup newpath.text = none := Option.isNone_iff_eq_none.mp (by simpa using missing)
      obtain ⟨oldNamed, gone⟩ := absent.resolve_left (not_not.mpr (inv.map_none.mpr none))
      rw [if_neg oldNamed, inv.map_none.mp gone]
      exact ⟨_, rfl⟩

theorem Inv.step {a : RamfsAction} (inv : w.Inv) (allowed : w.Allowed a) (step : w.Step a w') : w'.Inv := by
  obtain ⟨r, acted, map⟩ := step_eq step
  cases a with
  | «open» h path flags memory =>
    simp only [Ramfs.act] at acted
    split at acted
    case isFalse => cases acted
    case isTrue closed =>
      rw [Option.some.injEq] at acted
      refine (inv.open closed allowed).of_eq (congrArg Prod.fst acted).symm ?_
      rw [map, congrArg Prod.snd acted]
  | close h =>
    simp only [Ramfs.act, bind, Option.bind_eq_some_iff, pure, Option.some.injEq, Prod.mk.injEq] at acted
    obtain ⟨f, isOpen, v, here, fs, rfl⟩ := acted
    exact (inv.leave isOpen here).of_eq fs.symm map
  | read h count =>
    simp only [Ramfs.act, bind, Option.bind_eq_some_iff, pure, Option.some.injEq, Prod.mk.injEq] at acted
    obtain ⟨f, isOpen, v, here, fs, rfl⟩ := acted
    have inside := inv.pos h f v isOpen here
    refine (inv.setPos isOpen here ?_).of_eq fs.symm map
    rw [Ramfs.ramfsRead, List.length_map, List.length_range]
    split <;> omega
  | write h buf memory grown =>
    simp only [Ramfs.act, bind, Option.bind_eq_some_iff, pure, Option.some.injEq] at acted
    obtain ⟨f, isOpen, v, here, done⟩ := acted
    refine (inv.write isOpen here buf memory grown).of_eq (congrArg Prod.fst done).symm ?_
    rw [map, congrArg Prod.snd done]
  | lseek h offset =>
    simp only [Ramfs.act, bind, Option.bind_eq_some_iff, pure] at acted
    obtain ⟨f, isOpen, v, here, done⟩ := acted
    split at done
    case isTrue inside =>
      obtain ⟨fs, rfl⟩ := Prod.mk.inj (Option.some.inj done)
      exact (inv.setPos isOpen here inside).of_eq fs.symm map
    case isFalse =>
      obtain ⟨fs, rfl⟩ := Prod.mk.inj (Option.some.inj done)
      exact inv.of_eq fs.symm map
  | unlink path =>
    simp only [Ramfs.act, Ramfs.fileUnlink, Option.some.injEq] at acted
    split at acted
    case isTrue =>
      obtain ⟨fs, rfl⟩ := Prod.mk.inj acted
      exact inv.of_eq fs.symm map
    case isFalse closed =>
      have free : w.fs.files.vnode path = none := Option.isNone_iff_eq_none.mp (by simpa using closed)
      have named : path.name ≠ [] := fun root => allowed root free
      cases found : w.fs.lookup path.text with
      | none =>
        rw [found] at acted
        obtain ⟨fs, rfl⟩ := Prod.mk.inj acted
        exact inv.of_eq fs.symm map
      | some id =>
        have here := (Ramfs.lookup_eq_some inv.entries).mp found
        have entry : id ≠ 0 := by
          rw [Ramfs.At, if_neg named] at here
          exact Nat.ne_of_gt (inv.entries.ids id here.1).1
        simp only [found, if_neg entry, Prod.mk.injEq] at acted
        obtain ⟨fs, rfl⟩ := acted
        exact (inv.erase named here free).of_eq fs.symm map
  | rename oldpath newpath =>
    obtain ⟨errno, fails⟩ := fileRename_allowed inv allowed
    rw [Ramfs.act, fails] at acted
    obtain ⟨fs, rfl⟩ := Prod.mk.inj (Option.some.inj acted)
    exact inv.of_eq fs.symm map

theorem not_found_renamed {s : Ramfs} {newpath : RamPath} (named : newpath.name ≠ [])
    (absent : s.lookup newpath.text = none) (id : Nat) (name : List Char) (slash : name.head? = some '/') :
    (s.setDirent id { s.dirent id with name }).lookup newpath.text = none := by
  unfold Ramfs.lookup at absent ⊢
  rw [newpath.subpath_text, if_neg named, List.find?_eq_none] at absent ⊢
  intro other inside
  change ¬decide ((update s.dirent id _ other).name = newpath.name) = true
  by_cases own : other = id
  · rw [own, update_self, decide_eq_true_iff]
    rintro rfl
    exact newpath.first slash
  · rw [update_of_ne own]
    exact absent other inside

theorem allowed_of_sound {a : RamfsAction} (inv : w.Inv) (step : w.Step a w') (sound : w'.Sound) : w.Allowed a := by
  obtain ⟨r, acted, map⟩ := step_eq step
  cases a with
  | close | read | write | lseek => trivial
  | «open» h path flags memory =>
    intro trunc plain v here regular
    simp only [Ramfs.act, Ramfs.fileOpen, here, regular, false_and, if_false] at acted
    split at acted
    case isFalse => cases acted
    case isTrue =>
      obtain ⟨fs, rfl⟩ := Prod.mk.inj (Option.some.inj acted)
      obtain ⟨there, size⟩ := inv.nodes path v here
      have finds := sound.lookup path
      rw [map, ← fs] at finds
      simp only [NameMap.track, trunc, plain, and_self, if_true, update_self] at finds
      change (w.fs.lookup path.text).map (fun id => (w.fs.dirent id).content) = some [] at finds
      rw [(Ramfs.lookup_eq_some inv.entries).mpr there, Option.map_some, Option.some.injEq] at finds
      rw [size, ← length_content, finds, List.length_nil]
  | unlink path =>
    intro root free
    have found : w.fs.lookup path.text = some 0 := by
      rw [Ramfs.lookup_eq_some inv.entries, Ramfs.At, if_pos root]
    simp only [Ramfs.act, Ramfs.fileUnlink, free, Option.isSome_none, Bool.false_eq_true, if_false, found, if_true,
      Option.some.injEq, Prod.mk.injEq] at acted
    have fault := sound.fault
    rw [← acted.1] at fault
    cases fault
  | rename oldpath newpath =>
    by_contra notAllowed
    simp only [Allowed, not_or, not_not, not_and] at notAllowed
    obtain ⟨free, rest⟩ := notAllowed
    simp only [Ramfs.act, Ramfs.fileRename, free, Option.isSome_none, Bool.false_eq_true, if_false, Option.some.injEq] at acted
    have noFault (fault : w'.fs.fault = true) : False := by
      rw [sound.fault] at fault
      cases fault
    split at acted
    case isTrue => exact noFault (congrArg (fun done => done.1.fault) acted).symm
    case isFalse named =>
      obtain ⟨absent, present⟩ := rest named
      have missing := inv.map_none.mp absent
      rw [missing, Option.isSome_none, if_neg Bool.false_ne_true] at acted
      split at acted
      case isTrue => exact noFault (congrArg (fun done => done.1.fault) acted).symm
      case isFalse oldNamed =>
        cases found : w.fs.lookup oldpath.text with
        | none => exact present oldNamed (inv.map_none.mpr found)
        | some id =>
          rw [found] at acted
          obtain ⟨fs, rfl⟩ := Prod.mk.inj acted
          have finds := sound.lookup newpath
          have lost := not_found_renamed named missing id (newpath.text.take ramfsNameMax) rfl
          have differs : newpath ≠ oldpath := by
            rintro rfl
            rw [missing] at found
            cases found
          rw [map, ← fs, lost] at finds
          simp only [NameMap.track, update_of_ne differs, update_self] at finds
          exact present oldNamed finds.symm

theorem Inv.init : Inv init where
  entries := ⟨fun _ inside => (List.not_mem_nil inside).elim, fun _ inside => (List.not_mem_nil inside).elim,
    fun _ inside => (List.not_mem_nil inside).elim, List.nodup_nil⟩
  fresh := Nat.one_pos
  holds path bytes := by
    unfold Ramfs.At RamfsWorld.init
    by_cases root : path.name = []
    · simp [root, RamfsDirent.content, Ramfs.init]
    · simp [root, Ramfs.init]
  tied := OpenFiles.Tied.empty
  nodes _ _ isV := (Option.some_ne_none _ isV.symm).elim
  pos _ _ _ isF := (Option.some_ne_none _ isF.symm).elim
  fault := rfl

end RamfsWorld

section demo

end demo

end RtThread.Dfs
