import Mathlib.Algebra.Group.Nat.Defs
import Mathlib.Data.List.Infix

/-! Paths as texts: lists of names with a separator in front of each, and when one path leads through another. -/

set_option autoImplicit false
namespace RtThread.Lib

variable {α : Type} {sep : α}

structure IsName (sep : α) (name : List α) : Prop where
  ne_nil : name ≠ []
  noSep : sep ∉ name

def joined (sep : α) (names : List (List α)) : List α := names.flatMap (sep :: ·)

def absolute (sep : α) : List (List α) → List α
  | [] => [sep]
  | name :: names => joined sep (name :: names)

def components [DecidableEq α] (sep : α) (text : List α) : List (List α) := (text.splitOn sep).filter (· ≠ [])

/-- One component of a path, entered from the directory at `above`. -/
def enter [DecidableEq α] (dot : α) (above : List (List α)) (name : List α) : List (List α) :=
  if name = [dot] then above else if name = [dot, dot] then above.dropLast else above ++ [name]

structure IsPlain (sep dot : α) (name : List α) : Prop extends IsName sep name where
  ne_dot : name ≠ [dot]
  ne_dotDot : name ≠ [dot, dot]

@[simp] theorem joined_nil : joined sep ([] : List (List α)) = [] := rfl

@[simp] theorem joined_cons (name : List α) (names : List (List α)) :
    joined sep (name :: names) = sep :: (name ++ joined sep names) := rfl

theorem joined_append (names rest : List (List α)) : joined sep (names ++ rest) = joined sep names ++ joined sep rest :=
  List.flatMap_append

theorem absolute_of_ne_nil {names : List (List α)} (some : names ≠ []) : absolute sep names = joined sep names := by
  cases names with
  | nil => exact absurd rfl some
  | cons name names => rfl

/-! ## Components -/

section components
variable [DecidableEq α]

@[simp] theorem components_nil : components sep ([] : List α) = [] := by
  simp [components, List.splitOn_eq_splitOnP]

theorem components_sep (text : List α) : components sep (sep :: text) = components sep text := by
  have split := List.splitOn_append_cons_self (a := sep) [] text
  rw [List.nil_append] at split
  rw [components, split, List.filter_append]
  simp [components, List.splitOn_eq_splitOnP]

theorem components_dropSeps (text : List α) : components sep (text.dropWhile (· = sep)) = components sep text := by
  induction text with
  | nil => rfl
  | cons c text ih =>
    by_cases same : c = sep
    · rw [List.dropWhile_cons_of_pos (by simpa using same), ih, same, components_sep]
    · rw [List.dropWhile_cons_of_neg (by simpa using same)]

theorem components_name {name : List α} (isName : IsName sep name) : components sep name = [name] := by
  rw [components, List.splitOn_eq_singleton isName.noSep]
  simp [isName.ne_nil]

theorem components_name_sep {name : List α} (isName : IsName sep name) (text : List α) :
    components sep (name ++ sep :: text) = name :: components sep text := by
  rw [components, List.splitOn_append_cons_self_of_not_mem isName.noSep]
  simp [isName.ne_nil, components]

theorem isName_of_mem_components {text name : List α} (inside : name ∈ components sep text) : IsName sep name := by
  induction hsize : text.length using Nat.strongRecOn generalizing text with
  | ind size ih =>
    have tail := List.takeWhile_append_dropWhile (p := (· ≠ sep)) (l := text)
    have free : sep ∉ text.takeWhile (· ≠ sep) := fun bad => by simpa using List.all_eq_true.mp List.all_takeWhile _ bad
    cases rest : text.dropWhile (· ≠ sep) with
    | nil =>
      rw [rest, List.append_nil] at tail
      rw [tail] at free
      rw [components, List.splitOn_eq_singleton free] at inside
      simp only [ne_eq, decide_not, List.mem_filter, List.mem_singleton, Bool.not_eq_eq_eq_not, Bool.not_true,
        decide_eq_false_iff_not] at inside
      exact ⟨inside.2, inside.1 ▸ free⟩
    | cons c more =>
      have isSep : c = sep := by
        have found := List.head?_dropWhile_not (· ≠ sep) text
        rw [rest] at found
        simpa using found
      rw [rest, isSep] at tail
      rw [← tail, components, List.splitOn_append_cons_self_of_not_mem free, List.filter_cons] at inside
      have shorter : more.length < size := by
        rw [← hsize, ← tail, List.length_append, List.length_cons]
        omega
      split at inside
      case isTrue some =>
        rcases List.mem_cons.mp inside with same | later
        · rw [same]
          exact ⟨by simpa using some, free⟩
        · exact ih _ shorter later rfl
      case isFalse => exact ih _ shorter inside rfl

theorem components_joined {names : List (List α)} (all : ∀ name ∈ names, IsName sep name) :
    components sep (joined sep names) = names := by
  induction names with
  | nil => exact components_nil
  | cons name names ih =>
    obtain ⟨first, others⟩ := List.forall_mem_cons.mp all
    rw [joined_cons, components_sep]
    cases names with
    | nil => rw [joined_nil, List.append_nil, components_name first]
    | cons next rest =>
      rw [joined_cons, components_name_sep first, ← components_sep, ← joined_cons, ih others]

theorem components_absolute {names : List (List α)} (all : ∀ name ∈ names, IsName sep name) :
    components sep (absolute sep names) = names := by
  cases names with
  | nil => rw [absolute, components_sep, components_nil]
  | cons name names => exact components_joined all

theorem absolute_inj {names others : List (List α)} (all : ∀ name ∈ names, IsName sep name)
    (allOthers : ∀ name ∈ others, IsName sep name) (same : absolute sep names = absolute sep others) : names = others := by
  rw [← components_absolute all, same, components_absolute allOthers]

end components

/-! ## A path in front of another -/

-- Two names that are followed by the end or by a separator, in one text.
theorem name_ends {name other rest tail : List α} (free : sep ∉ name) (otherFree : sep ∉ other)
    (ends : ∀ c ∈ rest.head?, c = sep) (otherEnds : ∀ c ∈ tail.head?, c = sep) (same : name ++ rest = other ++ tail) :
    name = other ∧ rest = tail := by
  induction name generalizing other with
  | nil =>
    cases other with
    | nil => exact ⟨rfl, same⟩
    | cons c other =>
      rw [List.nil_append] at same
      have isSep : c = sep := ends c (by rw [same]; rfl)
      exact absurd (List.mem_cons_self) (isSep ▸ otherFree)
  | cons a name ih =>
    cases other with
    | nil =>
      rw [List.nil_append] at same
      have isSep : a = sep := otherEnds a (by rw [← same]; rfl)
      exact absurd (List.mem_cons_self) (isSep ▸ free)
    | cons b other =>
      obtain ⟨sameHead, sameTail⟩ := List.cons.inj same
      obtain ⟨sameName, sameRest⟩ := ih (fun bad => free (List.mem_cons_of_mem _ bad))
        (fun bad => otherFree (List.mem_cons_of_mem _ bad)) sameTail
      exact ⟨by rw [sameHead, sameName], sameRest⟩

theorem head_joined (names : List (List α)) : ∀ c ∈ (joined sep names).head?, c = sep := by
  cases names with
  | nil => exact fun _ none => nomatch none
  | cons name names => exact fun _ first => (Option.some.inj first).symm

theorem prefixed_joined {names others : List (List α)} (all : ∀ name ∈ names, IsName sep name)
    (allOthers : ∀ name ∈ others, IsName sep name) {tail : List α} (ends : ∀ c ∈ tail.head?, c = sep)
    (same : joined sep names ++ tail = joined sep others) : names <+: others := by
  induction names generalizing others with
  | nil => exact List.nil_prefix
  | cons name names ih =>
    cases others with
    | nil => exact (List.cons_ne_nil _ _ same).elim
    | cons other others =>
      obtain ⟨first, rest⟩ := List.forall_mem_cons.mp all
      obtain ⟨otherFirst, otherRest⟩ := List.forall_mem_cons.mp allOthers
      simp only [joined_cons, List.cons_append, List.append_assoc, List.cons.injEq, true_and] at same
      have follows : ∀ c ∈ (joined sep names ++ tail).head?, c = sep := by
        cases names with
        | nil => exact ends
        | cons next names => exact fun _ first => (Option.some.inj first).symm
      obtain ⟨sameName, sameRest⟩ := name_ends first.noSep otherFirst.noSep follows (head_joined others) same
      rw [sameName, List.prefix_cons_inj]
      exact ih rest otherRest sameRest

/-- A path is in front of another, name by name, just if its text is, and it is the root, or the other path's text ends
there or goes on with a separator. -/
theorem prefixed_absolute {names others : List (List α)} (all : ∀ name ∈ names, IsName sep name)
    (allOthers : ∀ name ∈ others, IsName sep name) :
    absolute sep names <+: absolute sep others ∧
        ((absolute sep names).length ≤ 1 ∨ (absolute sep others).length ≤ (absolute sep names).length ∨
          (absolute sep others)[(absolute sep names).length]? = some sep) ↔
      names <+: others := by
  cases names with
  | nil =>
    refine iff_of_true ⟨?_, Or.inl (Nat.le_refl 1)⟩ List.nil_prefix
    cases others with
    | nil => exact List.prefix_refl _
    | cons other others => exact ⟨other ++ joined sep others, rfl⟩
  | cons name names =>
    have long : 1 < (joined sep (name :: names)).length := by
      have some := List.length_pos_iff.mpr (all name List.mem_cons_self).ne_nil
      rw [joined_cons, List.length_cons, List.length_append]
      omega
    cases others with
    | nil =>
      refine iff_of_false (fun both => ?_) (fun bad => by simpa using bad.length_le)
      exact Nat.not_le_of_lt long both.1.length_le
    | cons other others =>
      rw [absolute_of_ne_nil (List.cons_ne_nil name names), absolute_of_ne_nil (List.cons_ne_nil other others)]
      constructor
      · rintro ⟨⟨tail, same⟩, ends⟩
        refine prefixed_joined all allOthers ?_ same
        intro c first
        rcases ends with root | short | next
        · exact absurd long (Nat.not_lt_of_le root)
        · have none : tail = [] := by
            rw [← same, List.length_append] at short
            exact List.length_eq_zero_iff.mp (by omega)
          rw [none] at first
          cases first
        · rw [← same, List.getElem?_append_right (Nat.le_refl _), Nat.sub_self, ← List.head?_eq_getElem?, first] at next
          exact Option.some.inj next
      · rintro ⟨rest, same⟩
        rw [← same, joined_append]
        refine ⟨List.prefix_append _ _, Or.inr ?_⟩
        cases rest with
        | nil =>
          left
          rw [joined_nil, List.append_nil]
        | cons next rest =>
          right
          rw [List.getElem?_append_right (Nat.le_refl _), Nat.sub_self]
          rfl

/-! ## Entering one component after the other -/

section enter
variable [DecidableEq α] {dot : α} {above names : List (List α)} {name : List α}

theorem enter_plain (plain : IsPlain sep dot name) : enter dot above name = above ++ [name] := by
  rw [enter, if_neg plain.ne_dot, if_neg plain.ne_dotDot]

theorem foldl_enter_plain (all : ∀ name ∈ names, IsPlain sep dot name) :
    names.foldl (enter dot) above = above ++ names := by
  induction names generalizing above with
  | nil => exact (List.append_nil above).symm
  | cons name names ih =>
    obtain ⟨first, rest⟩ := List.forall_mem_cons.mp all
    rw [List.foldl_cons, enter_plain first, ih rest, List.append_assoc, List.singleton_append]

theorem isPlain_enter (isName : IsName sep name) (all : ∀ other ∈ above, IsPlain sep dot other) :
    ∀ other ∈ enter dot above name, IsPlain sep dot other := by
  intro other inside
  unfold enter at inside
  split at inside
  case isTrue => exact all other inside
  case isFalse ne_dot =>
    split at inside
    case isTrue => exact all other (List.mem_of_mem_dropLast inside)
    case isFalse ne_dotDot =>
      rcases List.mem_append.mp inside with before | last
      · exact all other before
      · rw [List.mem_singleton.mp last]
        exact ⟨isName, ne_dot, ne_dotDot⟩

theorem isPlain_foldl_enter (areNames : ∀ name ∈ names, IsName sep name)
    (all : ∀ name ∈ above, IsPlain sep dot name) : ∀ name ∈ names.foldl (enter dot) above, IsPlain sep dot name := by
  induction names generalizing above with
  | nil => exact all
  | cons name names ih =>
    obtain ⟨first, rest⟩ := List.forall_mem_cons.mp areNames
    exact ih rest (isPlain_enter first all)

end enter

end RtThread.Lib
