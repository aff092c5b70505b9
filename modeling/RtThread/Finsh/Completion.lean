import RtThread.Finsh.Words
import RtThread.Lib.EditLine

/-! `msh_auto_complete` completes the line to the longest common beginning of the commands that begin with it. -/

set_option autoImplicit false
namespace RtThread.Finsh
open Lib

structure Commands where
  table : List (List UInt8)
  short {name : List UInt8} : name ∈ table → name.length < finshCmdSize
  noNul {name : List UInt8} : name ∈ table → 0 ∉ name

theorem commonPrefix_length (one other : List UInt8) : (commonPrefix one other).length = strCommon one other := by
  fun_induction strCommon one other with
  | case1 b one other ih => rw [commonPrefix, if_pos rfl, List.length_cons, ih]
  | case2 a one b other apart => rw [commonPrefix, if_neg apart, List.length_nil]
  | case3 one other none =>
    cases one with
    | nil => rfl
    | cons a one =>
      cases other with
      | nil => rfl
      | cons b other => exact absurd rfl (none a one b other rfl)

theorem commonPrefix_take (name other : List UInt8) (n : Nat) :
    commonPrefix (name.take n) other = name.take (min n (strCommon name other)) := by
  induction name generalizing other n with
  | nil => rw [List.take_nil, List.take_nil, commonPrefix]; exact fun _ _ _ _ none => by cases none
  | cons a name ih =>
    cases n with
    | zero => rw [List.take_zero, Nat.zero_min, List.take_zero, commonPrefix]; exact fun _ _ _ _ none => by cases none
    | succ n =>
      cases other with
      | nil => rfl
      | cons b other =>
        rw [List.take_succ_cons, commonPrefix, strCommon]
        split
        · rw [ih, Nat.succ_min_succ, List.take_succ_cons]
        · rw [Nat.min_zero, List.take_zero]

theorem strCommon_self (name : List UInt8) : strCommon name name = name.length := by
  induction name with
  | nil => rfl
  | cons a name ih => rw [strCommon, if_pos rfl, ih, List.length_cons]

theorem le_strCommon {text name other : List UInt8} (first : text <+: name) (second : text <+: other) :
    text.length ≤ strCommon name other := by
  rw [← commonPrefix_length]
  exact (prefix_commonPrefix first second).length_le

section fold
variable {text name : List UInt8}

theorem completeStep_other {found : Option (List UInt8) × Nat} (apart : text.isPrefixOf name = false) :
    completeStep text found name = found := by
  rw [completeStep, apart]
  exact if_neg Bool.false_ne_true

theorem completeStep_first (begins : text.isPrefixOf name = true) :
    completeStep text (none, 0) name = (some name, name.length) := by
  rw [completeStep, if_pos begins]
  simp [strCommon_self]

theorem completeStep_next {first : List UInt8} {n : Nat} (some : n ≠ 0) (begins : text.isPrefixOf name = true) :
    completeStep text (Option.some first, n) name = (Option.some first, min n (strCommon first name)) := by
  rw [completeStep, if_pos begins]
  dsimp only
  rw [if_neg some]
  dsimp only [Option.getD_some]
  split
  case isTrue less => rw [Nat.min_eq_right (Nat.le_of_lt less)]
  case isFalse more => rw [Nat.min_eq_left (Nat.le_of_not_lt more)]

theorem complete_rest (some : text ≠ []) (table : List (List UInt8)) {first : List UInt8} (begins : text <+: first) (n : Nat)
    (least : text.length ≤ n) (most : n ≤ first.length) :
    ∃ n', table.foldl (completeStep text) (Option.some first, n) = (Option.some first, n') ∧ text.length ≤ n' ∧
      n' ≤ first.length ∧
      first.take n' = (table.filter fun name => text.isPrefixOf name).foldl commonPrefix (first.take n) := by
  induction table generalizing n with
  | nil => exact ⟨n, rfl, least, most, rfl⟩
  | cons name table ih =>
    cases own : text.isPrefixOf name with
    | false =>
      rw [List.foldl_cons, completeStep_other own, List.filter_cons_of_neg (by rw [own]; exact Bool.false_ne_true)]
      exact ih n least most
    | true =>
      have positive : n ≠ 0 := by
        have long := List.length_pos_of_ne_nil some
        omega
      rw [List.foldl_cons, completeStep_next positive own, List.filter_cons_of_pos own, List.foldl_cons, commonPrefix_take]
      exact ih _ (Nat.le_min.mpr ⟨least, le_strCommon begins (List.isPrefixOf_iff_prefix.mp own)⟩)
        (Nat.le_trans (Nat.min_le_left _ _) most)

/-- The loop finds no command, and the text is its own completion, or the completion is the beginning of a command. -/
theorem complete_fold (some : text ≠ []) (table : List (List UInt8)) :
    (table.foldl (completeStep text) (none, 0) = (none, 0) ∧ completion table text = text) ∨
    ∃ name n, name ∈ table ∧ table.foldl (completeStep text) (none, 0) = (Option.some name, n) ∧ text.length ≤ n ∧
      n ≤ name.length ∧ completion table text = name.take n := by
  induction table with
  | nil => exact Or.inl ⟨rfl, rfl⟩
  | cons name table ih =>
    cases own : text.isPrefixOf name with
    | false =>
      have same : completion (name :: table) text = completion table text := by
        rw [completion, completion, List.filter_cons_of_neg (by rw [own]; exact Bool.false_ne_true)]
      rw [List.foldl_cons, completeStep_other own, same]
      refine ih.imp_right ?_
      rintro ⟨other, n, inside, found⟩
      exact ⟨other, n, List.mem_cons_of_mem _ inside, found⟩
    | true =>
      have begins := List.isPrefixOf_iff_prefix.mp own
      obtain ⟨n, found, least, most, same⟩ := complete_rest some table begins name.length begins.length_le (Nat.le_refl _)
      refine Or.inr ⟨name, n, List.mem_cons_self, ?_, least, most, ?_⟩
      · rw [List.foldl_cons, completeStep_first own, found]
      · rw [completion, List.filter_cons_of_pos own, same, List.take_length]

end fold

section complete
variable {text : List UInt8} {line : Nat → UInt8}

theorem completion_fits (cmds : Commands) (some : text ≠ []) (noNul : 0 ∉ text) (short : text.length < finshCmdSize) :
    0 ∉ completion cmds.table text ∧ (completion cmds.table text).length < finshCmdSize := by
  rcases complete_fold some cmds.table with ⟨-, same⟩ | ⟨name, n, inside, -, -, most, same⟩
  · rw [same]
    exact ⟨noNul, short⟩
  · rw [same, List.length_take]
    exact ⟨fun zero => cmds.noNul inside (List.mem_of_mem_take zero),
      Nat.lt_of_le_of_lt (Nat.min_le_right _ _) (cmds.short inside)⟩

theorem mshAutoComplete_rest (cmds : Commands) (rest : Rest text line 0) (some : text ≠ []) (noNul : 0 ∉ text)
    (short : text.length < finshCmdSize) : Rest (completion cmds.table text) (mshAutoComplete cmds.table line) 0 := by
  have first : line 0 ≠ 0 := by
    obtain ⟨ch, behind, rfl⟩ := List.exists_cons_of_ne_nil some
    have own : line 0 = ch := rest.byte (Nat.le_refl _)
    rw [own]
    exact fun zero => noNul (zero ▸ List.mem_cons_self)
  rw [mshAutoComplete, if_neg first, cString_eq rest.holds noNul (Nat.le_of_lt short)]
  rcases complete_fold some cmds.table with ⟨none, same⟩ | ⟨name, n, -, found, least, most, same⟩
  · rw [none, same]
    exact rest
  · rw [found, same]
    refine ⟨Nat.zero_le _, fun {i} _ => ?_⟩
    dsimp only
    rw [rtStrncpy, List.getD_eq_getElem?_getD, List.getD_eq_getElem?_getD, List.getElem?_take]
    split
    · rfl
    · rw [rest.byte (Nat.zero_le _), getD_behind (by omega)]
      rfl

end complete
end RtThread.Finsh
