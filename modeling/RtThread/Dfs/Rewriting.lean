import RtThread.Dfs.Path

/-! The loop of `dfs_normalize_path` in the buffer that it rewrites, with an access outside the buffer as a fault. -/

set_option autoImplicit false
namespace RtThread.Dfs
open Lib
open List (append_assoc length_append append_nil nil_append)

def nul : Char := Char.ofNat 0

/-- The buffer at `fullpath`, with the indices of `src` and `dst`. -/
structure Cursors where
  buf : List Char
  src : Nat
  dst : Nat

/-- `*dst++ = c` -/
def Cursors.put (s : Cursors) (c : Char) : Option Cursors :=
  if s.dst < s.buf.length then some { s with buf := s.buf.set s.dst c, dst := s.dst + 1 } else none

/-- Where the loops over slashes leave `src`, with a bound on the number of their turns. -/
def slashesEnd (buf : List Char) : Nat → Nat → Option Nat
  | 0, _ => none
  | turns + 1, src => buf[src]?.bind fun c => if c = '/' then slashesEnd buf turns (src + 1) else some src

/-- `while ((c = *src++) != '\0' && c != '/') *dst++ = c`, with the last `c`. -/
def copyName : Nat → Cursors → Option (Cursors × Char)
  | 0, _ => none
  | turns + 1, s =>
    s.buf[s.src]?.bind fun c =>
      if c ≠ nul ∧ c ≠ '/' then ({ s with src := s.src + 1 }.put c).bind (copyName turns)
      else some ({ s with src := s.src + 1 }, c)

/-- `while (dst0 < dst && dst[-1] != '/') dst--` -/
def nameStart (buf : List Char) : Nat → Option Nat
  | 0 => some 0
  | dst + 1 => buf[dst]?.bind fun c => if c ≠ '/' then nameStart buf dst else some (dst + 1)

/-- What the code at `up_one` makes of `dst`: nothing when the path is given up. -/
def upOneAt (buf : List Char) : Nat → Option (Option Nat)
  | 0 => some none
  | 1 => buf[0]?.bind fun c => if c ≠ '/' then some (some 0) else (nameStart buf 1).map some
  | dst + 2 => (nameStart buf (dst + 1)).map some

inductive Next where
  /-- To the next turn, with this `src`. -/
  | again (src : Nat)
  | upOne (src : Nat)
  | copy (src : Nat)

/-- The cases of a turn: the characters behind `src` are read as far as they matter. -/
def look (buf : List Char) (src : Nat) : Option Next :=
  buf[src]?.bind fun c =>
    if c = '.' then
      buf[src + 1]?.bind fun c =>
        if c = nul then some (.copy (src + 1))
        else if c = '/' then (slashesEnd buf buf.length (src + 2)).map .again
        else if c = '.' then
          buf[src + 2]?.bind fun c =>
            if c = nul then some (.upOne (src + 2))
            else if c = '/' then (slashesEnd buf buf.length (src + 3)).map .upOne
            else some (.copy src)
        else some (.copy src)
    else some (.copy src)

def copyPart (s : Cursors) : Option (Cursors × Bool) :=
  (copyName s.buf.length s).bind fun (s, c) =>
    if c = '/' then
      (s.put '/').bind fun s => (slashesEnd s.buf s.buf.length s.src).map fun src => ({ s with src := src }, true)
    else some (s, false)

def normalizeAt : Nat → Cursors → Option (Option Cursors)
  | 0, _ => none
  | turns + 1, s =>
    (look s.buf s.src).bind fun
      | .again src => normalizeAt turns { s with src := src }
      | .upOne src =>
        (upOneAt s.buf s.dst).bind fun
          | none => some none
          | some dst => normalizeAt turns { s with src := src, dst := dst }
      | .copy src =>
        (copyPart { s with src := src }).bind fun (s, again) => if again then normalizeAt turns s else some (some s)

/-- The code behind the loop, for `dst` in the buffer. Without a character in front of it one before the buffer is read. -/
def endAt (buf : List Char) : Nat → Option (List Char)
  | 0 => none
  | last + 1 =>
    if last + 1 < buf.length then
      let ended := buf.set (last + 1) nul
      let cut := if last ≠ 0 ∧ ended[last]? = some '/' then ended.set last nul else ended
      if cut[0]? = some nul then some ((cut.set 0 '/').set 1 nul) else some cut
    else none

def dfsNormalizeBuffer (directory : Option Directory) (filename : List Char) : Option (Option (List Char)) :=
  match joinPath directory filename with
  | none => some none
  | some fullpath =>
    (normalizeAt (fullpath.length + 1) ⟨fullpath ++ [nul], 0, 0⟩).bind fun
      | none => some none
      | some s => (endAt s.buf s.dst).map some

def cString (buf : List Char) : List Char := buf.takeWhile (· ≠ nul)

/-! ## The cursors and the lists -/

/-- What has been written stands in front of the gap between the cursors, what is to be read behind it. -/
def place (written gap rest : List Char) : Cursors := ⟨written ++ gap ++ rest, (written ++ gap).length, written.length⟩

variable {written gap rest src : List Char} {c : Char}

theorem put_place (first : Char) : (place written (first :: gap) rest).put c = some (place (written ++ [c]) gap rest) := by
  have less : written.length < (written ++ first :: gap ++ rest).length := by
    rw [length_append, length_append, List.length_cons]
    omega
  have set : (written ++ first :: gap ++ rest).set written.length c = written ++ [c] ++ gap ++ rest := by
    simp
  rw [Cursors.put, place, if_pos less, place, set]
  simp

theorem gap_snoc (gap : List Char) (c : Char) : ∃ first more, gap ++ [c] = first :: more := by
  cases gap with
  | nil => exact ⟨c, [], rfl⟩
  | cons first gap => exact ⟨first, gap ++ [c], rfl⟩

theorem here (front : List Char) (c : Char) (rest : List Char) : (front ++ c :: rest)[front.length]? = some c := by
  simp

theorem slashesEnd_eq {turns : Nat} (front src : List Char) (enough : src.length < turns) :
    slashesEnd (front ++ (src ++ [nul])) turns front.length = some (front ++ src.takeWhile (· = '/')).length := by
  induction src generalizing front turns with
  | nil =>
    obtain ⟨turns, rfl⟩ := Nat.exists_eq_add_of_lt enough
    rw [slashesEnd, nil_append, here, List.takeWhile_nil, append_nil]
    rfl
  | cons c src ih =>
    obtain ⟨turns, rfl⟩ := Nat.exists_eq_add_of_lt enough
    rw [slashesEnd, List.cons_append, here, Option.bind_some]
    split
    next slash =>
      have next := @ih ((c :: src).length + turns) (front ++ [c]) (by rw [List.length_cons]; omega)
      rw [append_assoc, length_append, List.singleton_append, append_assoc] at next
      rw [List.takeWhile_cons_of_pos (by simpa using slash)]
      exact next
    next other => rw [List.takeWhile_cons_of_neg (by simpa using other), append_nil]

theorem read_place : (place written gap (c :: rest)).buf[(place written gap (c :: rest)).src]? = some c := here _ c rest

theorem passed_place :
    { place written gap (c :: rest) with src := (place written gap (c :: rest)).src + 1 } = place written (gap ++ [c]) rest := by
  simp [place, Nat.add_assoc]

theorem copyName_eq {turns : Nat} {name : List Char} (plain : ∀ d ∈ name, d ≠ nul ∧ d ≠ '/') (stops : ¬(c ≠ nul ∧ c ≠ '/'))
    (enough : name.length < turns) :
    ∃ first more, copyName turns (place written gap (name ++ c :: rest)) =
      some (place (written ++ name) (first :: more) rest, c) := by
  induction name generalizing written gap turns with
  | nil =>
    obtain ⟨turns, rfl⟩ := Nat.exists_eq_add_of_lt enough
    obtain ⟨first, more, whole⟩ := gap_snoc gap c
    refine ⟨first, more, ?_⟩
    rw [copyName, nil_append, read_place, Option.bind_some, if_neg stops, passed_place, whole, append_nil]
  | cons d name ih =>
    obtain ⟨turns, rfl⟩ := Nat.exists_eq_add_of_lt enough
    obtain ⟨first, more, whole⟩ := gap_snoc gap d
    rw [copyName, List.cons_append, read_place, Option.bind_some, if_pos (plain d List.mem_cons_self), passed_place, whole,
      put_place, Option.bind_some, List.append_cons written d name]
    refine ih (fun e inside => plain e (List.mem_cons_of_mem d inside)) ?_
    rw [List.length_cons]
    omega

theorem nameStart_eq (dst rest : List Char) :
    nameStart (dst ++ rest) dst.length = some (dst.rdropWhile (· ≠ '/')).length := by
  induction dst using List.reverseRecOn generalizing rest with
  | nil => rfl
  | append_singleton dst c ih =>
    rw [length_append, List.length_singleton, nameStart, append_assoc, List.singleton_append, here,
      Option.bind_some]
    split
    next other => rw [ih, List.rdropWhile_concat_pos _ _ _ (by simpa using other)]
    next slash => rw [List.rdropWhile_concat_neg _ _ _ (by simpa using slash), length_append, List.length_singleton]

theorem upOneAt_eq (dst rest : List Char) : upOneAt (dst ++ rest) dst.length = some ((upOne dst).map List.length) := by
  obtain rfl | ⟨first, c, rfl⟩ := List.eq_nil_or_concat' dst
  · rfl
  cases first with
  | nil =>
    change (if c ≠ '/' then some (some 0) else (nameStart (c :: rest) 1).map some) = some ((upOne [c]).map List.length)
    split
    next other =>
      rw [upOne, if_pos (Or.inr (by simpa using other)), if_neg (List.cons_ne_nil _ _)]
      rfl
    next slash =>
      rw [not_not.mp slash]
      rfl
  | cons d first =>
    have long : (d :: first ++ [c]).length = first.length + 2 := by simp
    rw [upOne, if_pos (Or.inl (by rw [long]; omega)), if_neg (by simp), List.dropLast_concat, long, upOneAt, append_assoc]
    exact congrArg (Option.map some) (nameStart_eq (d :: first) ([c] ++ rest))

theorem upOne_front {dst up : List Char} (goes : upOne dst = some up) : up <+: dst := by
  unfold upOne at goes
  split at goes
  · split at goes
    · cases goes
    · rw [← Option.some.inj goes]
      exact (List.rdropWhile_prefix _ _).trans (List.dropLast_prefix dst)
  · rw [← Option.some.inj goes]
    exact List.rdropWhile_prefix _ _

theorem upOne_head {dst up : List Char} (goes : upOne dst = some up) (begins : dst.head? = some '/') :
    up.head? = some '/' := by
  obtain ⟨dst, rfl⟩ : ∃ more, dst = '/' :: more := by
    cases dst with
    | nil => cases begins
    | cons c more => exact ⟨more, by rw [Option.some.inj begins]⟩
  have kept (more : List Char) : (('/' :: more).rdropWhile (· ≠ '/')).head? = some '/' := by
    obtain ⟨cut, same⟩ := List.rdropWhile_prefix (· ≠ '/') ('/' :: more)
    have some : ('/' :: more).rdropWhile (· ≠ '/') ≠ [] := by simp
    obtain ⟨first, rest, whole⟩ := List.exists_cons_of_ne_nil some
    rw [whole] at same ⊢
    rw [(List.cons.inj same).1]
    rfl
  unfold upOne at goes
  split at goes
  next long =>
    rw [if_neg (List.cons_ne_nil _ _)] at goes
    cases dst with
    | nil => exact absurd long (by decide)
    | cons c more =>
      rw [← Option.some.inj goes]
      exact kept _
  next => rw [← Option.some.inj goes]; exact kept dst

theorem slashesEnd_behind (front piece src : List Char) :
    slashesEnd (front ++ (piece ++ src ++ [nul])) (front ++ (piece ++ src ++ [nul])).length (front.length + piece.length) =
      some (front ++ piece ++ src.takeWhile (· = '/')).length := by
  have ends := @slashesEnd_eq (front ++ (piece ++ src ++ [nul])).length (front ++ piece) src (by simp; omega)
  rwa [append_assoc front, ← append_assoc piece, @List.length_append _ front piece] at ends

theorem look_eq (front : List Char) (free : nul ∉ src) :
    look (front ++ (src ++ [nul])) front.length = some (
      if src = ['.'] then .copy (front ++ ['.']).length
      else if src.take 2 = ['.', '/'] then .again (front ++ ['.', '/'] ++ (src.drop 2).takeWhile (· = '/')).length
      else if src = ['.', '.'] then .upOne (front ++ ['.', '.']).length
      else if src.take 3 = ['.', '.', '/'] then
        .upOne (front ++ ['.', '.', '/'] ++ (src.drop 3).takeWhile (· = '/')).length
      else .copy front.length) := by
  match src with
  | [] => simp [look, nul]
  | c :: src =>
    by_cases dot : c = '.'
    swap
    · simp [look, dot]
    subst dot
    match src with
    | [] => simp [look]
    | a :: src =>
      have notNul : a ≠ nul := fun same => free (by simp [same])
      by_cases slash : a = '/'
      · simpa [look, slash, slash ▸ notNul] using slashesEnd_behind front ['.', '/'] src
      by_cases dots : a = '.'
      swap
      · simp [look, slash, dots, notNul]
      subst dots
      match src with
      | [] => simp [look, notNul]
      | b :: src =>
        have notNul' : b ≠ nul := fun same => free (by simp [same])
        by_cases slash' : b = '/'
        · simpa [look, slash' ▸ notNul', slash', notNul] using slashesEnd_behind front ['.', '.', '/'] src
        · simp [look, slash', notNul, notNul']

theorem place_skip (piece : List Char) :
    { place written gap (piece ++ rest) with src := (written ++ gap ++ piece).length } =
      place written (gap ++ piece) rest := by
  simp [place]

theorem place_up (up cut : List Char) :
    { place (up ++ cut) gap rest with dst := up.length } = place up (cut ++ gap) rest := by
  simp [place]

theorem slashes_place (written gap src : List Char) :
    slashesEnd (place written gap (src ++ [nul])).buf (place written gap (src ++ [nul])).buf.length
        (place written gap (src ++ [nul])).src =
      some (written ++ gap ++ src.takeWhile (· = '/')).length :=
  slashesEnd_eq (written ++ gap) src (by simp [place]; omega)

theorem takeSlashes (src : List Char) : src ++ [nul] = src.takeWhile (· = '/') ++ (skipSlashes src ++ [nul]) := by
  rw [← append_assoc, skipSlashes, List.takeWhile_append_dropWhile]

section copyPart
variable {name : List Char} (plain : ∀ d ∈ name, d ≠ nul ∧ d ≠ '/')
include plain

theorem copyPart_end :
    ∃ next more, copyPart (place written gap (name ++ [nul])) = some (place (written ++ name) (next :: more) [], false) := by
  obtain ⟨next, more, copied⟩ := @copyName_eq written gap [] nul (place written gap (name ++ [nul])).buf.length name plain
    (by decide) (by simp [place]; omega)
  refine ⟨next, more, ?_⟩
  rw [copyPart, copied]
  rfl

theorem copyPart_slash (src : List Char) :
    ∃ more, copyPart (place written gap (name ++ '/' :: src ++ [nul])) =
      some (place (written ++ name ++ ['/']) more (skipSlashes src ++ [nul]), true) := by
  have enough : name.length < (place written gap (name ++ '/' :: (src ++ [nul]))).buf.length := by
    simp [place]
    omega
  obtain ⟨next, more, copied⟩ := @copyName_eq written gap (src ++ [nul]) '/' _ name plain (by decide) enough
  refine ⟨more ++ src.takeWhile (· = '/'), ?_⟩
  rw [append_assoc name, List.cons_append, copyPart, copied]
  change ((place (written ++ name) (next :: more) (src ++ [nul])).put '/').bind _ = _
  rw [put_place, Option.bind_some, slashes_place, Option.map_some, takeSlashes, place_skip]

end copyPart

theorem upOne_place {up : List Char} (goes : upOne written = some up) :
    upOneAt (place written gap rest).buf (place written gap rest).dst = some (some up.length) := by
  have found := upOneAt_eq written (gap ++ rest)
  rw [goes, ← append_assoc] at found
  exact found

/-- The loop does to the buffer what it does to the lists. -/
theorem normalizeAt_eq {turns : Nat} {out : List Char} (free : nul ∉ written ++ src)
    (begins : (written ++ src).head? = some '/') (loop : normalizeLoop turns src written = some out) :
    nul ∉ out ∧ out.head? = some '/' ∧
      ∃ next more, normalizeAt turns (place written gap (src ++ [nul])) = some (some (place out (next :: more) [])) := by
  induction turns generalizing written gap src with
  | zero => cases loop
  | succ turns ih =>
    have freeSrc : nul ∉ src := fun bad => free (List.mem_append_right _ bad)
    have freeWritten : nul ∉ written := fun bad => free (List.mem_append_left _ bad)
    have dotted (dot : src.head? = some '.') : written.head? = some '/' := by
      cases written with
      | nil =>
        rw [nil_append, dot] at begins
        cases begins
      | cons c written => exact begins
    have onward {kept gap rest : List Char} (kept' : nul ∉ kept) (first : kept.head? = some '/') (sub : rest.Sublist src)
        (loop : normalizeLoop turns (skipSlashes rest) kept = some out) :=
      @ih kept gap (skipSlashes rest) (by
        intro bad
        obtain bad | bad := List.mem_append.mp bad
        · exact kept' bad
        · exact freeSrc (((List.dropWhile_sublist _).trans sub).subset bad)) (by
        rw [List.head?_append, first]
        rfl) loop
    have climbs (piece rest : List Char) (dots : src = piece ++ rest) (dot : src.head? = some '.')
        (loop : (upOne written).bind (normalizeLoop turns (skipSlashes rest)) = some out) :
        nul ∉ out ∧ out.head? = some '/' ∧ ∃ next more,
          ((upOneAt (place written gap (src ++ [nul])).buf (place written gap (src ++ [nul])).dst).bind fun
            | none => some none
            | some dst => normalizeAt turns
                { place written gap (src ++ [nul]) with
                  src := (written ++ gap ++ (piece ++ rest.takeWhile (· = '/'))).length, dst := dst }) =
            some (some (place out (next :: more) [])) := by
      obtain ⟨up, goes, loop⟩ := Option.bind_eq_some_iff.mp loop
      obtain ⟨cut, same⟩ := upOne_front goes
      have skip := @place_skip written gap (skipSlashes rest ++ [nul]) (piece ++ rest.takeWhile (· = '/'))
      rw [append_assoc _ _ (skipSlashes rest ++ [nul]), ← takeSlashes, ← append_assoc, ← dots] at skip
      rw [upOne_place goes, Option.bind_some]
      have placed : { place written gap (src ++ [nul]) with
          src := (written ++ gap ++ (piece ++ rest.takeWhile (· = '/'))).length, dst := up.length } =
          place up (cut ++ (gap ++ (piece ++ rest.takeWhile (· = '/')))) (skipSlashes rest ++ [nul]) := by
        rw [← place_up, same, ← skip]
      dsimp only
      rw [placed]
      exact onward (fun bad => freeWritten ((upOne_front goes).subset bad)) (upOne_head goes (dotted dot))
        (dots ▸ List.sublist_append_right piece rest) loop
    rw [normalizeLoop] at loop
    rw [normalizeAt, show look (place written gap (src ++ [nul])).buf (place written gap (src ++ [nul])).src = _ from
      look_eq (written ++ gap) freeSrc, Option.bind_some]
    split at loop
    next same =>
      subst same
      rw [← Option.some.inj loop, if_pos rfl]
      refine ⟨freeWritten, dotted rfl, ?_⟩
      dsimp only
      rw [place_skip ['.']]
      obtain ⟨next, more, whole⟩ := @copyPart_end written (gap ++ ['.']) [] (by simp)
      rw [nil_append, append_nil] at whole
      exact ⟨next, more, by rw [whole]; rfl⟩
    split at loop
    next other same =>
      obtain ⟨rest, rfl⟩ : ∃ rest, src = ['.', '/'] ++ rest := ⟨src.drop 2, by rw [← same, List.take_append_drop]⟩
      rw [if_neg other, if_pos same]
      dsimp only
      have skip := @place_skip written gap (skipSlashes rest ++ [nul]) (['.', '/'] ++ rest.takeWhile (· = '/'))
      rw [append_assoc _ _ (skipSlashes rest ++ [nul]), ← takeSlashes, ← append_assoc, ← append_assoc] at skip
      rw [show ((['.', '/'] ++ rest).drop 2).takeWhile (· = '/') = rest.takeWhile (· = '/') from rfl, skip]
      exact onward freeWritten (dotted rfl) (List.sublist_append_right _ _) loop
    split at loop
    next one two same =>
      rw [if_neg one, if_neg two, if_pos same]
      exact climbs ['.', '.'] [] same (by rw [same]; rfl) loop
    split at loop
    next one two three same =>
      obtain ⟨rest, rfl⟩ : ∃ rest, src = ['.', '.', '/'] ++ rest := ⟨src.drop 3, by rw [← same, List.take_append_drop]⟩
      rw [if_neg one, if_neg two, if_neg three, if_pos same, append_assoc (written ++ gap)]
      exact climbs ['.', '.', '/'] rest rfl rfl loop
    next one two three four =>
      rw [if_neg one, if_neg two, if_neg three, if_neg four]
      change nul ∉ out ∧ out.head? = some '/' ∧ ∃ next more,
        (copyPart (place written gap (src ++ [nul]))).bind _ = some (some (place out (next :: more) []))
      have named : ∀ d ∈ src.takeWhile (· ≠ '/'), d ≠ nul ∧ d ≠ '/' := fun d inside =>
        ⟨fun same => freeSrc (same ▸ (List.takeWhile_sublist _).subset inside), by simpa using List.mem_takeWhile_imp inside⟩
      have whole : src.takeWhile (· ≠ '/') ++ src.dropWhile (· ≠ '/') = src := List.takeWhile_append_dropWhile
      split at loop
      next none =>
        rw [none, append_nil] at whole
        rw [whole] at named
        obtain ⟨next, more, copied⟩ := @copyPart_end written gap src named
        rw [← Option.some.inj loop, copied]
        exact ⟨free, begins, next, more, rfl⟩
      next c rest found =>
        have slash : c = '/' := by
          have stop := List.head?_dropWhile_not (· ≠ '/') src
          rw [found] at stop
          simpa using stop
        rw [found, slash] at whole
        obtain ⟨more, copied⟩ := @copyPart_slash written gap _ named rest
        rw [whole] at copied
        have parts : written ++ src = written ++ src.takeWhile (· ≠ '/') ++ ['/'] ++ rest := by
          rw [append_assoc _ ['/'], List.singleton_append, append_assoc, whole]
        rw [parts] at free begins
        rw [List.head?_append_of_ne_nil _ (List.append_ne_nil_of_right_ne_nil _ (List.cons_ne_nil _ _))] at begins
        rw [copied]
        refine onward (fun bad => free (List.mem_append_left rest bad)) begins ?_ loop
        rw [← whole]
        exact (List.sublist_cons_self '/' rest).trans (List.sublist_append_right _ _)

theorem cString_eq (free : nul ∉ written) (rest : List Char) : cString (written ++ nul :: rest) = written := by
  have plain : ∀ c ∈ written, decide (c ≠ nul) = true := fun c inside => by
    simpa using fun same : c = nul => free (same ▸ inside)
  rw [cString, List.takeWhile_append_of_pos plain, List.takeWhile_cons_of_neg (by simp), append_nil]

theorem endAt_eq (free : nul ∉ written) (begins : written.head? = some '/') (next : Char) (more : List Char) :
    ∃ buf, endAt (written ++ next :: more) written.length = some buf ∧ nul ∈ buf ∧
      cString buf = endPath written := by
  obtain rfl | ⟨front, last, rfl⟩ := List.eq_nil_or_concat' written
  · cases begins
  have length : (front ++ [last]).length = front.length + 1 := length_append
  have ended : (front ++ [last] ++ next :: more).set (front.length + 1) nul = front ++ [last] ++ nul :: more := by simp
  have final : (front ++ [last] ++ nul :: more)[front.length]? = some last := by simp
  have zero {buf : List Char} (first : buf.head? = some '/') : buf[0]? ≠ some nul := by
    rw [← List.head?_eq_getElem?, first]
    decide
  rw [length, endAt, if_pos (by simp)]
  dsimp only
  rw [ended, final, endPath, removeSlash, length, List.getLast?_concat, List.dropLast_concat]
  by_cases cuts : front.length ≠ 0 ∧ some last = some '/'
  · have some : front ≠ [] := fun none => cuts.1 (by rw [none]; rfl)
    rw [List.head?_append_of_ne_nil _ some] at begins
    have same : (front ++ [last] ++ nul :: more).set front.length nul = front ++ nul :: nul :: more := by simp
    have freeFront : nul ∉ front := fun bad => free (List.mem_append_left _ bad)
    have long : 1 < front.length + 1 ∧ Option.some last = Option.some '/' := ⟨by omega, cuts.2⟩
    rw [if_pos cuts, same, if_neg (zero (by rw [List.head?_append_of_ne_nil _ some, begins])), if_pos long, if_neg some]
    exact ⟨_, rfl, by simp, cString_eq freeFront _⟩
  · have keeps : ¬(1 < front.length + 1 ∧ some last = some '/') := fun both => cuts ⟨by omega, both.2⟩
    rw [if_neg cuts, if_neg (zero (by rw [List.head?_append_of_ne_nil _ (by simp), begins])), if_neg keeps, if_neg (by simp)]
    exact ⟨_, rfl, by simp, cString_eq free more⟩

theorem dfsNormalizeBuffer_eq {directory : Option Directory} {filename path : List Char}
    (joins : joinPath directory filename = some path) (free : nul ∉ path) :
    ∃ buf, dfsNormalizeBuffer directory filename = some (some buf) ∧ nul ∈ buf ∧
      cString buf = absolute '/' (resolve path) := by
  have lists := dfsNormalizePath_eq directory filename
  rw [dfsNormalizePath, joins, Option.bind_some, Option.map_some] at lists
  obtain ⟨out, loop, ends⟩ := Option.map_eq_some_iff.mp lists
  obtain ⟨freeOut, begins, next, more, whole⟩ := @normalizeAt_eq [] [] path _ out free (joinPath_head joins) loop
  obtain ⟨buf, ended, terminated, holds⟩ := endAt_eq freeOut begins next more
  refine ⟨buf, ?_, terminated, holds.trans ends⟩
  rw [place, append_nil, nil_append] at whole
  rw [dfsNormalizeBuffer, joins]
  dsimp only
  rw [show (⟨path ++ [nul], 0, 0⟩ : Cursors) = ⟨path ++ [nul], ([] : List Char).length, ([] : List Char).length⟩ from rfl, whole,
    Option.bind_some]
  dsimp only
  rw [place, append_nil, ended]
  rfl

def resolved (directory filename : List Char) : List (List Char) :=
  ((if filename.head? = some '/' then [] else components '/' directory) ++ components '/' filename).foldl (enter '.') []

theorem components_append (text rest : List Char) :
    components '/' (text ++ '/' :: rest) = components '/' text ++ components '/' rest := by
  rw [components, List.splitOn_append_cons_self, List.filter_append]
  rfl

/-- The buffer holds the canonical path, which is left as it is. -/
theorem dfsNormalizeBuffer_canonical (directory : Directory) {filename : List Char} (noNul : nul ∉ directory.path)
    (noNul' : nul ∉ filename) :
    ∃ buf, dfsNormalizeBuffer (some directory) filename = some (some buf) ∧ nul ∈ buf ∧
      cString buf = absolute '/' (resolved directory.path filename) ∧ IsNormal (cString buf) ∧
      ∀ other, ∃ again, dfsNormalizeBuffer other (cString buf) = some (some again) ∧ cString again = cString buf := by
  have joins : joinPath (some directory) filename =
      some (if filename.head? ≠ some '/' then directory.path ++ '/' :: filename else filename) := by
    unfold joinPath
    split <;> rfl
  have named : resolve (if filename.head? ≠ some '/' then directory.path ++ '/' :: filename else filename) =
      resolved directory.path filename := by
    unfold resolve resolved
    by_cases rooted : filename.head? = some '/'
    · rw [if_neg (not_not.mpr rooted), if_pos rooted, List.nil_append]
    · rw [if_pos rooted, if_neg rooted, components_append]
  have free : nul ∉ if filename.head? ≠ some '/' then directory.path ++ '/' :: filename else filename := by
    split
    · simpa [noNul, noNul'] using (by decide : nul ≠ '/')
    · exact noNul'
  obtain ⟨buf, normalizes, ended, holds⟩ := dfsNormalizeBuffer_eq joins free
  have path := dfsNormalizePath_eq (some directory) filename
  rw [joins, Option.map_some, named] at path
  rw [named] at holds
  have normal : IsNormal (cString buf) := holds ▸ isNormal_dfsNormalizePath path
  refine ⟨buf, normalizes, ended, holds, normal, fun other => ?_⟩
  have begins : (cString buf).head? = some '/' := by
    obtain ⟨names, -, same⟩ := normal
    rw [same]
    cases names <;> rfl
  have joins' : joinPath other (cString buf) = some (cString buf) := if_neg (not_not.mpr begins)
  have still := dfsNormalizePath_normal other normal
  rw [dfsNormalizePath_eq, joins', Option.map_some] at still
  obtain ⟨again, runs, -, same⟩ := dfsNormalizeBuffer_eq joins' fun bad => by simpa using List.mem_takeWhile_imp bad
  exact ⟨again, runs, same.trans (Option.some.inj still)⟩

theorem dfsNormalizeBuffer_canonical_up :
    ∃ buf, dfsNormalizeBuffer (some ⟨['/', 'a'], rfl⟩) ['.', '.', '/', 'b'] = some (some buf) ∧ cString buf = ['/', 'b'] := by
  obtain ⟨buf, normalizes, -, holds, -⟩ :=
    @dfsNormalizeBuffer_canonical ⟨['/', 'a'], rfl⟩ ['.', '.', '/', 'b'] (by decide) (by decide)
  exact ⟨buf, normalizes, holds.trans (by decide)⟩

/-- Where `a` takes one from a directory, a relative `b` leads to where `a/b` does from that directory. -/
theorem dfsNormalizePath_chdir (directory : Directory) {a b : List Char} (named : a ≠ []) (relative : b.head? ≠ some '/') :
    ∃ cwd : Directory, dfsNormalizePath (some directory) a = some cwd.path ∧
      dfsNormalizePath (some cwd) b = dfsNormalizePath (some directory) (a ++ '/' :: b) := by
  obtain ⟨path, joins, longer⟩ : ∃ path, joinPath (some directory) a = some path ∧
      joinPath (some directory) (a ++ '/' :: b) = some (path ++ '/' :: b) := by
    unfold joinPath
    rw [List.head?_append_of_ne_nil _ named]
    split
    · exact ⟨_, rfl, by simp⟩
    · exact ⟨_, rfl, rfl⟩
  have rooted : (absolute '/' (resolve path)).head? = some '/' := by
    cases resolve path <;> rfl
  have split (text : List Char) : resolve (text ++ '/' :: b) = (components '/' b).foldl (enter '.') (resolve text) := by
    rw [resolve, components_append, List.foldl_append]
    rfl
  refine ⟨⟨_, rooted⟩, by rw [dfsNormalizePath_eq, joins]; rfl, ?_⟩
  rw [dfsNormalizePath_eq, dfsNormalizePath_eq, longer, joinPath, if_pos relative]
  simp only [Option.map_some, split, resolve_absolute (isPlain_resolve path)]

theorem dfsNormalizePath_chdir_up : ∃ cwd : Directory,
    dfsNormalizePath (some ⟨['/', 'a'], rfl⟩) ['.', '.'] = some cwd.path ∧
      dfsNormalizePath (some cwd) ['b'] = dfsNormalizePath (some ⟨['/', 'a'], rfl⟩) ['.', '.', '/', 'b'] :=
  dfsNormalizePath_chdir ⟨['/', 'a'], rfl⟩ (by decide) (by decide)

end RtThread.Dfs
