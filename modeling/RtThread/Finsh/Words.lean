import RtThread.Finsh.Msh
import Mathlib.Data.List.DropRight

/-! The arguments of a command line, as texts, the tokens of a line of any length, and the bytes of it that `msh_split`
reads and writes. -/

set_option autoImplicit false
namespace RtThread.Finsh
open Drivers

/-! ## Texts -/

/-- A string up to the quote that ends it, and what is behind that, if there is one. A quote behind a backslash does not
end it. -/
def quoted : List UInt8 → List UInt8 × Option (List UInt8)
  | [] => ([], none)
  | [ch] => if ch = quote then ([], some []) else ([ch], none)
  | ch :: next :: rest =>
    if ch = quote then ([], some (next :: rest))
    else if ch = backslash ∧ next = quote then
      let done := quoted rest
      (ch :: next :: done.1, done.2)
    else
      let done := quoted (next :: rest)
      (ch :: done.1, done.2)

/-- At most `limit` arguments: words between blanks, and strings in quotes. -/
def words : Nat → List UInt8 → List (List UInt8)
  | 0, _ => []
  | limit + 1, text =>
    match text.dropWhile isBlank with
    | [] => []
    | ch :: rest =>
      if ch = quote then
        let string := quoted rest
        string.1 :: string.2.elim [] (words limit)
      else
        (ch :: rest).takeWhile (fun ch => !isBlank ch) :: words limit ((ch :: rest).dropWhile fun ch => !isBlank ch)

def textExec (table : List (List UInt8)) (text : List UInt8) : MshResult :=
  let trimmed := text.dropWhile isBlank
  let name := trimmed.takeWhile fun ch => !isBlank ch
  if trimmed = [] then .nothing
  else if name ∈ table then .run name (words finshArgMax trimmed)
  else .notFound (trimmed.takeWhile (· ≠ space))

/-! ## Strings in the line -/

/-- The bytes at `ptr` are a text and a NUL. -/
structure Holds (ptr : Nat → UInt8) (text : List UInt8) : Prop where
  byte {i : Nat} : i < text.length → ptr i = text.getD i 0
  nul : ptr text.length = 0

theorem cString_eq {ptr : Nat → UInt8} {text : List UInt8} (holds : Holds ptr text) (noNul : 0 ∉ text)
    (short : text.length ≤ finshCmdSize) : cString ptr = text := by
  obtain ⟨more, size⟩ : ∃ more, finshCmdSize + 1 = text.length + (more + 1) := ⟨finshCmdSize - text.length, by omega⟩
  have front : bytesAt ptr text.length = text := by
    refine List.ext_getElem (by rw [bytesAt_length]) fun i less less' => ?_
    simp only [bytesAt, List.getElem_map, List.getElem_range]
    rw [holds.byte less', List.getD_eq_getElem?_getD, List.getElem?_eq_getElem less', Option.getD_some]
  have all : ∀ ch ∈ text, decide (ch ≠ 0) = true := fun ch inside => decide_eq_true fun zero => noNul (zero ▸ inside)
  rw [cString, size, bytesAt_add, front, List.takeWhile_append_of_pos all, bytesAt, List.range_succ_eq_map, List.map_cons,
    Nat.add_zero, holds.nul, List.takeWhile_cons_of_neg (by simp), List.append_nil]

/-! ## The split -/

/-- The line from `position` on is still the text, with NULs behind it. -/
structure Rest (text : List UInt8) (cmd : Nat → UInt8) (position : Nat) : Prop where
  inside : position ≤ text.length
  byte {i : Nat} : position ≤ i → cmd i = text.getD i 0

structure Left (text : List UInt8) (cmd : Nat → UInt8) (position : Nat) : Prop where
  inside : position ≤ text.length
  byte {i : Nat} : position ≤ i → i ≤ text.length → cmd i = text.getD i 0

structure Token (text : List UInt8) (cmd : Nat → UInt8) (start : Nat) (word : List UInt8) : Prop where
  inside : start + word.length ≤ text.length
  noNul : 0 ∉ word
  holds : Holds (fun i => cmd (start + i)) word

section split
variable {text : List UInt8} {cmd : Nat → UInt8} {position : Nat}

theorem drop_getD (less : position < text.length) : text.drop position = text.getD position 0 :: text.drop (position + 1) := by
  rw [List.drop_eq_getElem_cons less, List.getD_eq_getElem?_getD, List.getElem?_eq_getElem less, Option.getD_some]

theorem getD_behind {i : Nat} (behind : text.length ≤ i) : text.getD i 0 = 0 := by
  rw [List.getD_eq_getElem?_getD, List.getElem?_eq_none behind, Option.getD_none]

theorem Rest.left (rest : Rest text cmd position) : Left text cmd position := ⟨rest.inside, fun le _ => rest.byte le⟩

namespace Left

section
variable (left : Left text cmd position)
include left

theorem cons (less : position < text.length) :
    text.drop position = cmd position :: text.drop (position + 1) := by
  rw [left.byte (Nat.le_refl _) (Nat.le_of_lt less), drop_getD less]

theorem later {position' : Nat} (le : position ≤ position') (inside : position' ≤ text.length) :
    Left text cmd position' :=
  ⟨inside, fun le' => left.byte (Nat.le_trans le le')⟩

theorem nul : cmd text.length = 0 :=
  (left.byte left.inside (Nat.le_refl _)).trans (getD_behind (Nat.le_refl _))

theorem set (place : Nat) (le : position ≤ place) (less : place < text.length) :
    Left text (Function.update cmd place 0) (place + 1) :=
  ⟨less, fun {i} le' inside => by
    rw [Function.update_of_ne (by omega)]
    exact left.byte (by omega) inside⟩

theorem token (noNul : 0 ∉ text) {word : List UInt8} (front : word <+: text.drop position)
    {cmd' : Nat → UInt8} (same : ∀ i < position + word.length, position ≤ i → cmd' i = cmd i)
    (nul : cmd' (position + word.length) = 0) : Token text cmd' position word := by
  have inside := left.inside
  obtain ⟨behind, split⟩ := front
  have total := congrArg List.length split
  rw [List.length_append, List.length_drop] at total
  refine ⟨by omega, fun zero => noNul ?_, fun {i} less => ?_, nul⟩
  · refine List.mem_of_mem_drop (i := position) ?_
    rw [← split]
    exact List.mem_append_left _ zero
  · rw [same _ (by omega) (by omega), left.byte (by omega) (by omega), List.getD_eq_getElem?_getD, ← List.getElem?_drop,
      ← split, List.getElem?_append_left less, List.getD_eq_getElem?_getD]

end

end Left

/-- What `stripBlanks` does to the line, and where it stops. -/
structure Stripped (text : List UInt8) (cmd : Nat → UInt8) (position : Nat) (cmd' : Nat → UInt8) (position' : Nat) : Prop where
  left : Left text cmd' position'
  le : position ≤ position'
  drop : text.drop position' = (text.drop position).dropWhile isBlank
  front {i : Nat} : i < position → cmd' i = cmd i
  blank : position < text.length → isBlank (cmd position) → position < position' ∧ cmd' position = 0

theorem stripBlanks_stripped (left : Left text cmd position) :
    Stripped text cmd position (stripBlanks text.length cmd position).1 (stripBlanks text.length cmd position).2 := by
  fun_induction stripBlanks text.length cmd position with
  | case1 cmd position blank ih =>
    obtain ⟨blank, less⟩ := blank
    have stripped := ih (left.set position (Nat.le_refl _) less)
    refine ⟨stripped.left, Nat.le_of_succ_le stripped.le, ?_, fun {i} before => ?_, fun _ _ => ⟨stripped.le, ?_⟩⟩
    · rw [stripped.drop, left.cons less, List.dropWhile_cons_of_pos blank]
    · rw [stripped.front (Nat.lt_succ_of_lt before), Function.update_of_ne (Nat.ne_of_lt before)]
    · rw [stripped.front (Nat.lt_succ_self _), Function.update_self]
  | case2 cmd position stop =>
    refine ⟨left, Nat.le_refl _, ?_, fun _ => rfl, fun less blank => absurd ⟨blank, less⟩ stop⟩
    by_cases less : position < text.length
    · rw [left.cons less, List.dropWhile_cons_of_neg fun blank => stop ⟨blank, less⟩]
    · rw [List.drop_eq_nil_of_le (Nat.le_of_not_lt less), List.dropWhile_nil]

theorem skipWord_eq (left : Left text cmd position) :
    skipWord text.length cmd position = position + ((text.drop position).takeWhile fun ch => !isBlank ch).length := by
  fun_induction skipWord text.length cmd position with
  | case1 position inside ih =>
    obtain ⟨word, less⟩ := inside
    rw [ih (left.later (Nat.le_succ _) less), left.cons less, List.takeWhile_cons_of_pos (by simpa using word), List.length_cons]
    omega
  | case2 position stop =>
    by_cases less : position < text.length
    · rw [left.cons less, List.takeWhile_cons_of_neg (fun word => stop ⟨by simpa using word, less⟩), List.length_nil, Nat.add_zero]
    · rw [List.drop_eq_nil_of_le (Nat.le_of_not_lt less), List.takeWhile_nil, List.length_nil, Nat.add_zero]

theorem quoted_none {text : List UInt8} (open' : (quoted text).2 = none) : text = (quoted text).1 := by
  fun_induction quoted text with
  | case1 => rfl
  | case2 => cases open'
  | case3 => rfl
  | case4 => cases open'
  | case5 ch next rest plain escaped done ih | case6 ch next rest plain escaped done ih => rw [← ih open']

theorem quoted_some {text behind : List UInt8} (closed : (quoted text).2 = some behind) :
    text = (quoted text).1 ++ quote :: behind := by
  fun_induction quoted text with
  | case1 => cases closed
  | case2 =>
    cases closed
    rfl
  | case3 => cases closed
  | case4 next rest =>
    cases closed
    rfl
  | case5 ch next rest plain escaped done ih => rw [List.cons_append, List.cons_append, ← ih closed]
  | case6 ch next rest plain escaped done ih => rw [List.cons_append, ← ih closed]

theorem skipString_eq (left : Left text cmd position) :
    skipString text.length cmd position = position + (quoted (text.drop position)).1.length := by
  fun_induction skipString text.length cmd position with
  | case1 position inside escaped ih =>
    obtain ⟨plain, less⟩ := inside
    have next : position + 1 < text.length := by
      refine Nat.lt_of_not_le fun behind => ?_
      have own := escaped.2
      rw [left.byte (Nat.le_succ _) less, getD_behind behind] at own
      exact absurd own (by decide)
    have second : text.drop (position + 1) = cmd (position + 1) :: text.drop (position + 2) :=
      (left.later (Nat.le_succ _) less).cons next
    rw [ih (left.later (Nat.le_add_right _ 2) next), left.cons less, second, quoted, if_neg plain, if_pos escaped]
    simp only [List.length_cons]
    omega
  | case2 position inside escaped ih =>
    obtain ⟨plain, less⟩ := inside
    rw [ih (left.later (Nat.le_succ _) less), left.cons less]
    by_cases next : position + 1 < text.length
    · rw [(left.later (Nat.le_succ _) less).cons next, quoted, if_neg plain, if_neg escaped]
      simp only [List.length_cons]
      omega
    · have last : quoted [cmd position] = ([cmd position], none) := by rw [quoted, if_neg plain]
      rw [List.drop_eq_nil_of_le (Nat.le_of_not_lt next), last]
      rfl
  | case3 position stop =>
    by_cases less : position < text.length
    · have own : cmd position = quote := Classical.not_not.mp fun plain => stop ⟨plain, less⟩
      rw [left.cons less]
      cases text.drop (position + 1) with
      | nil | cons next behind => rw [quoted, if_pos own]; rfl
    · rw [List.drop_eq_nil_of_le (Nat.le_of_not_lt less)]
      rfl

theorem words_nil (limit : Nat) : words limit [] = [] := by
  cases limit with
  | zero => rfl
  | succ limit => rfl

theorem words_quoted (limit : Nat) {text behind : List UInt8} (trimmed : text.dropWhile isBlank = quote :: behind) :
    words (limit + 1) text = (quoted behind).1 :: (quoted behind).2.elim [] (words limit) := by
  rw [words, trimmed]
  exact if_pos rfl

theorem words_word (limit : Nat) {text behind : List UInt8} {ch : UInt8} (trimmed : text.dropWhile isBlank = ch :: behind)
    (plain : ch ≠ quote) : words (limit + 1) text = (ch :: behind).takeWhile (fun ch => !isBlank ch) ::
      words limit ((ch :: behind).dropWhile fun ch => !isBlank ch) := by
  rw [words, trimmed]
  exact if_neg plain

/-- From `position` on, the split has found the words of the text, and changed nothing in front of it. -/
def Splits (limit : Nat) (text : List UInt8) (cmd : Nat → UInt8) (position : Nat) (argv : List Nat) (done : Split) : Prop :=
  ∃ starts, done.argv = argv ++ starts ∧ (∀ i < position, done.cmd i = cmd i) ∧
    (position < text.length → isBlank (cmd position) → done.cmd position = 0) ∧
    starts.map (fun start => cString fun i => done.cmd (start + i)) = words limit (text.drop position)

/-- From `position` on, the split has found the words of the text, and changed nothing in front of it. -/
def Tokens (limit : Nat) (text : List UInt8) (cmd : Nat → UInt8) (position : Nat) (argv : List Nat) (done : Split) : Prop :=
  ∃ starts, done.argv = argv ++ starts ∧ (∀ i < position, done.cmd i = cmd i) ∧
    (position < text.length → isBlank (cmd position) → done.cmd position = 0) ∧
    List.Forall₂ (Token text done.cmd) starts (words limit (text.drop position))

theorem Stripped.none {cmd' : Nat → UInt8} {position' : Nat} (stripped : Stripped text cmd position cmd' position') {limit : Nat}
    (nothing : words limit (text.drop position) = []) (argv : List Nat) : Tokens limit text cmd position argv ⟨cmd', argv⟩ :=
  ⟨[], (List.append_nil _).symm, fun _ before => stripped.front before, fun less blank => (stripped.blank less blank).2,
    nothing ▸ .nil⟩

theorem Stripped.word {cmd₁ cmd₂ : Nat → UInt8} {start₁ start₂ : Nat} (stripped : Stripped text cmd position cmd₁ start₁)
    (le : start₁ ≤ start₂) (front : ∀ i < start₁, cmd₂ i = cmd₁ i) {limit start : Nat} {argv : List Nat} {done : Split}
    (more : Tokens limit text cmd₂ start₂ (argv ++ [start]) done) {word : List UInt8}
    (string : Token text done.cmd start word)
    (first : words (limit + 1) (text.drop position) = word :: words limit (text.drop start₂)) :
    Tokens (limit + 1) text cmd position argv done := by
  obtain ⟨starts, found, kept, -, rest⟩ := more
  have before {i : Nat} (less : i < start₁) : done.cmd i = cmd₁ i := (kept i (Nat.lt_of_lt_of_le less le)).trans (front i less)
  refine ⟨start :: starts, ?_, fun i less => ?_, fun less blank => ?_, ?_⟩
  · rw [found, List.append_assoc, List.singleton_append]
  · rw [before (Nat.lt_of_lt_of_le less stripped.le), stripped.front less]
  · obtain ⟨behind, nul⟩ := stripped.blank less blank
    rw [before behind, nul]
  · rw [first]
    exact .cons string rest

theorem mshSplit_found (noNul : 0 ∉ text) (limit : Nat) (left : Left text cmd position)
    (argv : List Nat) (room : argv.length + limit = finshArgMax) :
    Tokens limit text cmd position argv (mshSplit text.length cmd position argv) := by
  induction limit generalizing cmd position argv with
  | zero =>
    have stripped := stripBlanks_stripped left
    rw [mshSplit]
    split
    case isTrue less =>
      rw [if_pos (by omega)]
      exact stripped.none rfl argv
    case isFalse stop => exact ⟨[], (List.append_nil _).symm, fun _ _ => rfl, fun less => absurd less stop, .nil⟩
  | succ limit ih =>
    rw [mshSplit]
    split
    case isFalse stop =>
      refine ⟨[], (List.append_nil _).symm, fun _ _ => rfl, fun less => absurd less stop, ?_⟩
      rw [List.drop_eq_nil_of_le (Nat.le_of_not_lt stop), words_nil]
      exact .nil
    have stripped := stripBlanks_stripped left
    cases strip : stripBlanks text.length cmd position with | mk cmd₁ start =>
    rw [strip] at stripped
    dsimp only at stripped ⊢
    have left₁ := stripped.left
    rw [if_neg (by omega)]
    split
    case isTrue beyond =>
      have ends := stripped.drop
      rw [List.drop_eq_nil_of_le beyond] at ends
      refine stripped.none ?_ argv
      rw [words, ← ends]
    case isFalse inside =>
      have less : start < text.length := Nat.lt_of_not_le inside
      have trimmed : (text.drop position).dropWhile isBlank = cmd₁ start :: text.drop (start + 1) := by
        rw [← stripped.drop, left₁.cons less]
      have last {stop : Nat} (beyond : text.length ≤ stop) {cmd₂ : Nat → UInt8} {argv : List Nat} :
          Tokens limit text cmd₂ stop argv ⟨cmd₂, argv⟩ := by
        refine ⟨[], (List.append_nil _).symm, fun _ _ => rfl, fun less => absurd less (Nat.not_lt_of_le beyond), ?_⟩
        rw [List.drop_eq_nil_of_le beyond, words_nil]
        exact .nil
      split
      case isTrue opens =>
        have left₂ : Left text cmd₁ (start + 1) := left₁.later (Nat.le_succ _) less
        rw [opens] at trimmed
        have first := words_quoted limit trimmed
        have size : (text.drop (start + 1)).length = text.length - (start + 1) := List.length_drop
        rw [skipString_eq left₂]
        cases closed : (quoted (text.drop (start + 1))).2 with
        | none =>
          have whole := quoted_none closed
          rw [closed] at first
          rw [← whole] at first ⊢
          rw [if_pos (by omega)]
          refine stripped.word (Nat.le_of_lt less) (fun _ _ => rfl) (last (Nat.le_refl _))
            (left₂.token noNul (List.prefix_refl _) (fun _ _ _ => rfl) ?_) ?_
          · rw [size, Nat.add_sub_cancel' less]
            exact left₁.nul
          · rw [first, List.drop_length, words_nil]
            rfl
        | some behind =>
          have whole := quoted_some closed
          rw [closed] at first
          generalize (quoted (text.drop (start + 1))).1 = string at whole first ⊢
          have total := congrArg List.length whole
          rw [size, List.length_append, List.length_cons] at total
          have under : start + 1 + string.length < text.length := by omega
          rw [if_neg (by omega)]
          have more := ih (left₁.set (start + 1 + string.length) (by omega) under) (argv ++ [start + 1])
            (by rw [List.length_append, List.length_singleton]; omega)
          have tail : text.drop (start + 1 + string.length + 1) = behind := by
            rw [Nat.add_assoc (start + 1), ← List.drop_drop, whole, ← List.drop_drop, List.drop_left, List.drop_succ_cons,
              List.drop_zero]
          obtain ⟨starts, found, kept, blank, strings⟩ := more
          refine stripped.word (by omega) (fun i before => Function.update_of_ne (by omega) ..) ⟨starts, found, kept, blank, strings⟩
            (left₂.token noNul ⟨quote :: behind, whole.symm⟩ (fun i before after => ?_) ?_) ?_
          · rw [kept i (by omega), Function.update_of_ne (by omega)]
          · rw [kept _ (Nat.lt_succ_self _), Function.update_self]
          · rw [first, tail]
            rfl
      case isFalse plain =>
        have first := words_word limit trimmed plain
        rw [← left₁.cons less] at first
        rw [skipWord_eq left₁]
        have whole : (text.drop start).takeWhile (fun ch => !isBlank ch) ++ (text.drop start).dropWhile (fun ch => !isBlank ch) =
            text.drop start := List.takeWhile_append_dropWhile
        have size : (text.drop start).length = text.length - start := List.length_drop
        generalize (text.drop start).takeWhile (fun ch => !isBlank ch) = word at whole first ⊢
        have tail : text.drop (start + word.length) = (text.drop start).dropWhile fun ch => !isBlank ch := by
          rw [← List.drop_drop, ← whole, List.drop_left, whole]
        rw [← tail] at first
        split
        case isTrue beyond =>
          refine stripped.word (Nat.le_add_right _ _) (fun _ _ => rfl) (last beyond)
            (left₁.token noNul ⟨_, whole⟩ (fun _ _ _ => rfl) ?_) first
          have total := congrArg List.length whole
          rw [List.length_append, size] at total
          rw [Nat.le_antisymm (by omega) beyond]
          exact left₁.nul
        case isFalse under =>
          have less : start + word.length < text.length := Nat.lt_of_not_le under
          have left₂ : Left text cmd₁ (start + word.length) := left₁.later (Nat.le_add_right _ _) (Nat.le_of_lt less)
          have blank : isBlank (cmd₁ (start + word.length)) = true := by
            have head := List.head?_dropWhile_not (fun ch => !isBlank ch) (text.drop start)
            rw [← tail, left₂.cons less] at head
            simpa using head
          obtain ⟨starts, found, kept, ends, strings⟩ := ih left₂ (argv ++ [start])
            (by rw [List.length_append, List.length_singleton]; omega)
          exact stripped.word (Nat.le_add_right _ _) (fun _ _ => rfl) ⟨starts, found, kept, ends, strings⟩
            (left₁.token noNul ⟨_, whole⟩ (fun i before _ => kept i before) (ends less blank)) first

theorem Token.cString {start : Nat} {word : List UInt8} (token : Token text cmd start word)
    (short : text.length ≤ finshCmdSize) : Finsh.cString (fun i => cmd (start + i)) = word :=
  cString_eq token.holds token.noNul (Nat.le_trans (Nat.le_trans (Nat.le_add_left _ _) token.inside) short)

theorem mshSplit_splits (noNul : 0 ∉ text) (short : text.length ≤ finshCmdSize) (limit : Nat) (rest : Rest text cmd position)
    (argv : List Nat) (room : argv.length + limit = finshArgMax) :
    Splits limit text cmd position argv (mshSplit text.length cmd position argv) := by
  obtain ⟨starts, found, front, blank, tokens⟩ := mshSplit_found noNul limit rest.left argv room
  refine ⟨starts, found, front, blank, ?_⟩
  have same := tokens.imp fun start word token => token.cString short
  exact List.forall₂_eq_eq_eq ▸ List.forall₂_map_left_iff.mpr same

/-! ## The execution -/

theorem Rest.holds (rest : Rest text cmd 0) : Holds cmd text :=
  ⟨fun _ => rest.byte (Nat.zero_le _), (rest.byte (Nat.zero_le _)).trans (getD_behind (Nat.le_refl _))⟩

theorem Rest.bytes (rest : Rest text cmd 0) : bytesAt cmd text.length = text := by
  refine List.ext_getElem bytesAt_length fun i less less' => ?_
  simp only [bytesAt, List.getElem_map, List.getElem_range]
  rw [rest.byte (Nat.zero_le _), List.getD_eq_getElem?_getD, List.getElem?_eq_getElem less', Option.getD_some]

theorem mshTrim_rest (rest : Rest text cmd 0) : (mshTrim cmd text.length).2 = (text.dropWhile isBlank).length ∧
    Rest (text.dropWhile isBlank) (mshTrim cmd text.length).1 0 := by
  induction text generalizing cmd with
  | nil => exact ⟨rfl, rest⟩
  | cons ch text ih =>
    have own : cmd 0 = ch := rest.byte (Nat.le_refl _)
    rw [List.length_cons, mshTrim, own]
    by_cases blank : isBlank ch
    · rw [if_pos blank, List.dropWhile_cons_of_pos blank]
      exact ih ⟨Nat.zero_le _, fun {i} _ => (rest.byte (Nat.zero_le (i + 1))).trans List.getD_cons_succ⟩
    · rw [if_neg blank, List.dropWhile_cons_of_neg blank]
      exact ⟨rfl, rest⟩

theorem bytesAt_take (rest : Rest text cmd 0) {n : Nat} (le : n ≤ text.length) : bytesAt cmd n = text.take n := by
  obtain ⟨more, same⟩ := Nat.exists_eq_add_of_le le
  have whole := rest.bytes
  rw [same, bytesAt_add] at whole
  rw [← whole, List.take_left' bytesAt_length]

theorem mshGetCmd_eq (table : List (List UInt8)) {size : Nat} {name : List UInt8} (front : bytesAt cmd size = name) :
    mshGetCmd table cmd size = if name ∈ table then some name else none := by
  unfold mshGetCmd
  rw [front]
  cases found : table.find? fun other => other = name with
  | none =>
    have absent : name ∉ table := fun inside => List.find?_eq_none.mp found name inside (decide_eq_true rfl)
    rw [if_neg absent]
  | some other =>
    have same : other = name := by simpa using List.find?_some found
    have inside := List.mem_of_find?_eq_some found
    rw [same] at inside
    rw [if_pos inside, same]

theorem mshExecCmd_text (table : List (List UInt8)) (rest : Rest text cmd 0) (noNul : 0 ∉ text)
    (short : text.length ≤ finshCmdSize) (trimmed : text.dropWhile isBlank = text) (some : text ≠ []) :
    mshExecCmd table cmd text.length =
      if text.takeWhile (fun ch => !isBlank ch) ∈ table then
        Option.some (.run (text.takeWhile fun ch => !isBlank ch) (words finshArgMax text))
      else none := by
  obtain ⟨ch, behind, rfl⟩ := List.exists_cons_of_ne_nil some
  have plain : isBlank ch = false := by
    have head := List.head?_dropWhile_not isBlank (ch :: behind)
    rw [trimmed] at head
    exact head
  have size : skipWord (ch :: behind).length cmd 0 = ((ch :: behind).takeWhile fun ch => !isBlank ch).length := by
    rw [skipWord_eq rest.left, Nat.zero_add, List.drop_zero]
  have front : bytesAt cmd ((ch :: behind).takeWhile fun ch => !isBlank ch).length =
      (ch :: behind).takeWhile fun ch => !isBlank ch := by
    rw [bytesAt_take rest (List.takeWhile_sublist _).length_le]
    exact (List.prefix_iff_eq_take.mp (List.takeWhile_prefix _)).symm
  have first : ((ch :: behind).takeWhile fun ch => !isBlank ch).length ≠ 0 := by
    rw [List.takeWhile_cons_of_pos (by rw [plain]; rfl), List.length_cons]
    exact Nat.succ_ne_zero _
  unfold mshExecCmd
  dsimp only
  rw [size, if_neg first, mshGetCmd_eq table front]
  by_cases listed : (ch :: behind).takeWhile (fun ch => !isBlank ch) ∈ table
  case neg => rw [if_neg listed, if_neg listed]
  case pos =>
    rw [if_pos listed, if_pos listed]
    obtain ⟨starts, found, -, -, strings⟩ := mshSplit_splits noNul short finshArgMax rest [] (Nat.zero_add _)
    rw [List.nil_append] at found
    rw [List.drop_zero] at strings
    have one : words (9 + 1) (ch :: behind) ≠ [] := by
      by_cases opens : ch = quote
      · rw [opens] at trimmed ⊢
        rw [words_quoted 9 trimmed]
        exact List.cons_ne_nil _ _
      · rw [words_word 9 trimmed opens]
        exact List.cons_ne_nil _ _
    have some : starts ≠ [] := by
      rintro rfl
      exact one strings.symm
    dsimp only
    rw [found, if_neg some, strings]

theorem mshExec_text (table : List (List UInt8)) (rest : Rest text cmd 0) (noNul : 0 ∉ text)
    (short : text.length ≤ finshCmdSize) : mshExec table cmd text.length = textExec table text := by
  obtain ⟨size, rest⟩ := mshTrim_rest rest
  have noNul : 0 ∉ text.dropWhile isBlank := fun zero => noNul ((List.dropWhile_sublist _).subset zero)
  have short : (text.dropWhile isBlank).length ≤ finshCmdSize := Nat.le_trans (List.dropWhile_sublist _).length_le short
  have trimmed : (text.dropWhile isBlank).dropWhile isBlank = text.dropWhile isBlank := List.dropWhile_idempotent ..
  unfold mshExec textExec
  dsimp only
  rw [size]
  by_cases empty : text.dropWhile isBlank = []
  · rw [if_pos (by rw [empty]; rfl), if_pos empty]
  · rw [if_neg fun none => empty (List.length_eq_zero_iff.mp none), if_neg empty,
      mshExecCmd_text table rest noNul short trimmed empty]
    by_cases listed : (text.dropWhile isBlank).takeWhile (fun ch => !isBlank ch) ∈ table
    · rw [if_pos listed, if_pos listed]
    · rw [if_neg listed, if_neg listed]
      dsimp only
      rw [cString_eq rest.holds noNul short]

end split

/-! ## The grammar -/

def closing (before : UInt8) : List UInt8 → Nat
  | [] => 0
  | ch :: rest => if ch = quote ∧ before ≠ backslash then 0 else closing ch rest + 1

def tokens (text : List UInt8) : List (List UInt8) :=
  match trimmed : text.dropWhile isBlank with
  | [] => []
  | ch :: rest =>
    if ch = quote then rest.take (closing ch rest) :: tokens (rest.drop (closing ch rest + 1))
    else (ch :: rest.takeWhile fun ch => !isBlank ch) :: tokens (rest.dropWhile fun ch => !isBlank ch)
termination_by text.length
decreasing_by
  all_goals
    have shorter := (List.dropWhile_sublist (l := text) isBlank).length_le
    rw [trimmed, List.length_cons] at shorter
  · rw [List.length_drop]
    omega
  · have rest := (List.dropWhile_sublist (l := rest) fun ch => !isBlank ch).length_le
    omega

theorem closing_cons {before ch : UInt8} (rest : List UInt8) (plain : ¬(ch = quote ∧ before ≠ backslash)) :
    closing before (ch :: rest) = closing ch rest + 1 := if_neg plain

theorem cut_cons (ch : UInt8) (text : List UInt8) (place : Nat) :
    (ch :: text.take place, if place < text.length then some (text.drop (place + 1)) else none) =
      ((ch :: text).take (place + 1),
        if place + 1 < (ch :: text).length then some ((ch :: text).drop (place + 1 + 1)) else none) := by
  simp only [List.take_succ_cons, List.drop_succ_cons, List.length_cons, Nat.add_lt_add_iff_right]

theorem quoted_eq : (text : List UInt8) → {before : UInt8} → before ≠ backslash → quoted text =
    (text.take (closing before text),
      if closing before text < text.length then some (text.drop (closing before text + 1)) else none)
  | [], _, _ => rfl
  | [ch], before, plain => by
    by_cases own : ch = quote
    · rw [quoted, if_pos own, closing, if_pos ⟨own, plain⟩]
      rfl
    · rw [quoted, if_neg own, closing_cons _ fun both => own both.1]
      rfl
  | ch :: next :: rest, before, plain => by
    by_cases own : ch = quote
    · rw [quoted, if_pos own, closing, if_pos ⟨own, plain⟩]
      rfl
    rw [quoted, if_neg own, closing_cons _ fun both => own both.1, ← cut_cons]
    by_cases escaped : ch = backslash ∧ next = quote
    · have behind : next ≠ backslash := by rw [escaped.2]; decide
      have cut := cut_cons next rest (closing next rest)
      rw [if_pos escaped, closing_cons _ fun both => both.2 escaped.1, quoted_eq rest behind]
      rw [Prod.mk.injEq] at cut
      rw [← cut.1, ← cut.2]
    · rw [if_neg escaped]
      by_cases first : ch = backslash
      · have same : closing ch (next :: rest) = closing quote (next :: rest) := by
          rw [closing_cons rest fun both => escaped ⟨first, both.1⟩, closing_cons rest fun both => escaped ⟨first, both.1⟩]
        rw [same, quoted_eq (next :: rest) (by decide : quote ≠ backslash)]
      · rw [quoted_eq (next :: rest) first]

theorem tokens_nil {text : List UInt8} (none : text.dropWhile isBlank = []) : tokens text = [] := by
  rw [tokens]
  split
  next => rfl
  next trimmed => cases none.symm.trans trimmed

theorem tokens_cons {text rest : List UInt8} {ch : UInt8} (trimmed : text.dropWhile isBlank = ch :: rest) :
    tokens text = if ch = quote then rest.take (closing ch rest) :: tokens (rest.drop (closing ch rest + 1))
      else (ch :: rest.takeWhile fun ch => !isBlank ch) :: tokens (rest.dropWhile fun ch => !isBlank ch) := by
  rw [tokens]
  split
  next none => cases none.symm.trans trimmed
  next same =>
    cases same.symm.trans trimmed
    rfl

theorem words_eq (limit : Nat) (text : List UInt8) : words limit text = (tokens text).take limit := by
  induction limit generalizing text with
  | zero => exact List.take_zero.symm
  | succ limit ih =>
    cases trimmed : text.dropWhile isBlank with
    | nil =>
      rw [tokens_nil trimmed, words, trimmed]
      rfl
    | cons ch rest =>
      rw [tokens_cons trimmed]
      by_cases opens : ch = quote
      · rw [opens] at trimmed ⊢
        rw [words_quoted limit trimmed, if_pos rfl, List.take_succ_cons, quoted_eq rest (by decide : quote ≠ backslash), ← ih]
        split
        next => rfl
        next short =>
          rw [List.drop_eq_nil_of_le (by omega), words_nil]
          rfl
      · have word : isBlank ch = false := by
          have head := List.head?_dropWhile_not isBlank text
          rw [trimmed] at head
          exact head
        rw [words_word limit trimmed opens, if_neg opens, List.take_succ_cons, ← ih,
          List.takeWhile_cons_of_pos (by rw [word]; rfl), List.dropWhile_cons_of_pos (by rw [word]; rfl)]

/-! ## Reads and writes -/

section split
variable (length : Nat)

/-- The places of the line that `stripBlanks` reads. -/
def stripReads (cmd : Nat → UInt8) (position : Nat) : List Nat :=
  position :: if isBlank (cmd position) ∧ position < length then stripReads (Function.update cmd position 0) (position + 1)
    else []
termination_by length - position

/-- The places that `skipString` reads. -/
def stringReads (cmd : Nat → UInt8) (position : Nat) : List Nat :=
  position ::
    if cmd position ≠ quote ∧ position < length then
      (if cmd position = backslash then [position + 1] else []) ++
        if cmd position = backslash ∧ cmd (position + 1) = quote then stringReads cmd (position + 2)
        else stringReads cmd (position + 1)
    else []
termination_by length - position

/-- The places that `skipWord` reads. -/
def wordReads (cmd : Nat → UInt8) (position : Nat) : List Nat :=
  position :: if ¬isBlank (cmd position) ∧ position < length then wordReads cmd (position + 1) else []
termination_by length - position

/-- The places that `mshSplit` reads. -/
def splitReads (cmd : Nat → UInt8) (position : Nat) (argv : List Nat) : List Nat :=
  if position < length then
    let stripped := stripBlanks length cmd position
    stripReads length cmd position ++
      if finshArgMax ≤ argv.length then []
      else if length ≤ stripped.2 then []
      else if stripped.1 stripped.2 = quote then
        let stop := skipString length stripped.1 (stripped.2 + 1)
        stripped.2 :: stringReads length stripped.1 (stripped.2 + 1) ++
          if length ≤ stop then []
          else splitReads (Function.update stripped.1 stop 0) (stop + 1) (argv ++ [stripped.2 + 1])
      else
        let stop := skipWord length stripped.1 stripped.2
        stripped.2 :: wordReads length stripped.1 stripped.2 ++
          if length ≤ stop then [] else splitReads stripped.1 stop (argv ++ [stripped.2])
  else []
termination_by length - position
decreasing_by
  · have first := le_stripBlanks length cmd position
    have second := le_skipString length (stripBlanks length cmd position).1 ((stripBlanks length cmd position).2 + 1)
    omega
  · have first := le_stripBlanks length cmd position
    have less : (stripBlanks length cmd position).2 < length := Nat.lt_of_not_le (by assumption)
    have second := lt_skipWord length _ (stripBlanks_stops length cmd position less) less
    omega

end split

variable {text : List UInt8} {cmd : Nat → UInt8} {position : Nat}

section
variable (left : Left text cmd position)
include left

theorem stripReads_le : ∀ i ∈ stripReads text.length cmd position, i ≤ text.length := by
  fun_induction stripReads text.length cmd position with
  | case1 cmd position ih =>
    refine List.forall_mem_cons.mpr ⟨left.inside, ?_⟩
    split
    next blank => exact ih blank (left.set position (Nat.le_refl _) blank.2)
    next => exact List.forall_mem_nil _

theorem wordReads_le : ∀ i ∈ wordReads text.length cmd position, i ≤ text.length := by
  fun_induction wordReads text.length cmd position with
  | case1 position ih =>
    refine List.forall_mem_cons.mpr ⟨left.inside, ?_⟩
    split
    next word => exact ih word (left.later (Nat.le_succ _) word.2)
    next => exact List.forall_mem_nil _

theorem stringReads_le : ∀ i ∈ stringReads text.length cmd position, i ≤ text.length := by
  fun_induction stringReads text.length cmd position with
  | case1 position escaped plain =>
    refine List.forall_mem_cons.mpr ⟨left.inside, ?_⟩
    split
    next string =>
      have less := string.2
      have next := left.later (Nat.le_succ _) less
      refine List.forall_mem_append.mpr ⟨?_, ?_⟩
      · split
        · exact List.forall_mem_singleton.mpr less
        · exact List.forall_mem_nil _
      · split
        next both =>
          -- the NUL at the end of the line is no quote
          have more : position + 1 ≠ text.length := by
            intro last
            have nul := left.nul
            rw [← last, both.2] at nul
            exact absurd nul (by decide)
          exact escaped string (next.later (Nat.le_succ _) (by omega))
        next => exact plain string next
    next => exact List.forall_mem_nil _

theorem splitReads_le (argv : List Nat) :
    ∀ i ∈ splitReads text.length cmd position argv, i ≤ text.length := by
  fun_induction splitReads text.length cmd position argv with
  | case1 cmd position argv less stripped opened plain => 
    have strip := stripBlanks_stripped left
    refine List.forall_mem_append.mpr ⟨stripReads_le left, ?_⟩
    split
    next => exact List.forall_mem_nil _
    split
    next => exact List.forall_mem_nil _
    next under =>
      have start : stripped.2 < text.length := Nat.lt_of_not_le under
      have next := strip.left.later (Nat.le_succ _) start
      split
      · refine List.forall_mem_append.mpr
          ⟨List.forall_mem_cons.mpr ⟨Nat.le_of_lt start, stringReads_le next⟩, ?_⟩
        split
        next => exact List.forall_mem_nil _
        next more =>
          have le := le_skipString text.length stripped.1 (stripped.2 + 1)
          exact opened (strip.left.set _ (Nat.le_of_succ_le le) (Nat.lt_of_not_le more))
      · refine List.forall_mem_append.mpr
          ⟨List.forall_mem_cons.mpr ⟨Nat.le_of_lt start, wordReads_le strip.left⟩, ?_⟩
        split
        next => exact List.forall_mem_nil _
        next more =>
          have le : stripped.2 ≤ skipWord text.length stripped.1 stripped.2 :=
            (skipWord_eq strip.left).symm ▸ Nat.le_add_right _ _
          exact plain under (strip.left.later le (Nat.le_of_not_le more))
  | case2 => exact List.forall_mem_nil _

end

theorem stripBlanks_keeps (length : Nat) (cmd : Nat → UInt8) (position : Nat) {i : Nat} (behind : length ≤ i) :
    (stripBlanks length cmd position).1 i = cmd i := by
  fun_induction stripBlanks length cmd position with
  | case1 cmd position blank ih => rw [ih, Function.update_of_ne (by omega)]
  | case2 => rfl

theorem mshSplit_keeps (length : Nat) (cmd : Nat → UInt8) (position : Nat) (argv : List Nat) {i : Nat} (behind : length ≤ i) :
    (mshSplit length cmd position argv).cmd i = cmd i := by
  have strip := stripBlanks_keeps length cmd position behind
  fun_induction mshSplit length cmd position argv with
  | case1 | case2 | case3 | case5 => exact strip
  | case4 cmd position argv less stripped full under opened stop more ih =>
    rw [ih (stripBlanks_keeps length _ _ behind), Function.update_of_ne (by omega)]
    exact strip
  | case6 cmd position argv less stripped full under plain stop more ih =>
    rw [ih (stripBlanks_keeps length _ _ behind)]
    exact strip
  | case7 => rfl

theorem words_length (limit : Nat) (text : List UInt8) : (words limit text).length ≤ limit := by
  rw [words_eq]
  exact List.length_take_le _ _

/-- Of any line, `msh_split` finds the first tokens, as strings in the line, reads nothing behind its NUL, and writes
nothing behind its text. -/
theorem mshSplit_tokens {text : List UInt8} {cmd : Nat → UInt8} (line : Holds cmd text) (noNul : 0 ∉ text) :
    (mshSplit text.length cmd 0 []).argv.length ≤ finshArgMax ∧
      List.Forall₂ (Token text (mshSplit text.length cmd 0 []).cmd) (mshSplit text.length cmd 0 []).argv
        ((tokens text).take finshArgMax) ∧
      (∀ i ∈ splitReads text.length cmd 0 [], i ≤ text.length) ∧
      ∀ i, text.length ≤ i → (mshSplit text.length cmd 0 []).cmd i = cmd i := by
  have left : Left text cmd 0 := by
    refine ⟨Nat.zero_le _, fun {i} _ le => ?_⟩
    obtain less | rfl := Nat.lt_or_eq_of_le le
    · exact line.byte less
    · rw [line.nul, getD_behind (Nat.le_refl _)]
  obtain ⟨starts, found, -, -, all⟩ := mshSplit_found noNul finshArgMax left [] (Nat.zero_add _)
  rw [List.nil_append] at found
  rw [List.drop_zero] at all
  refine ⟨?_, ?_, splitReads_le left [], fun i behind => mshSplit_keeps _ _ _ _ behind⟩
  · rw [found, all.length_eq]
    exact words_length _ _
  · rw [found, ← words_eq]
    exact all

/-- `echo "a \" b"c`, and rubbish behind it -/
def echoLine : List UInt8 := "echo\t\"a \\\" b\"c".toUTF8.toList

theorem mshSplit_echoLine :
    tokens echoLine = ["echo", "a \\\" b", "c"].map (·.toUTF8.toList) ∧
      List.Forall₂ (Token echoLine (mshSplit echoLine.length (fun i => (echoLine ++ 0 :: echoLine).getD i 1) 0 []).cmd)
        (mshSplit echoLine.length (fun i => (echoLine ++ 0 :: echoLine).getD i 1) 0 []).argv ((tokens echoLine).take 10) := by
  refine ⟨by decide +kernel, (mshSplit_tokens ⟨fun {i} less => ?_, by decide +kernel⟩ (by decide +kernel)).2.1⟩
  revert i
  decide +kernel

end RtThread.Finsh
