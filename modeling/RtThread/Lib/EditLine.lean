import Mathlib.Data.List.InsertIdx

/-! A text with a cursor in it, the longest common beginning of texts, and the texts that were entered last. -/

set_option autoImplicit false
namespace RtThread.Lib

variable {α : Type}

/-! ## A text with a cursor -/

structure EditLine (α : Type) where
  text : List α
  cursor : Nat
  inside : cursor ≤ text.length

namespace EditLine

def empty : EditLine α := ⟨[], 0, Nat.le_refl 0⟩

def atEnd (text : List α) : EditLine α := ⟨text, text.length, Nat.le_refl _⟩

def insert (line : EditLine α) (ch : α) : EditLine α where
  text := line.text.insertIdx line.cursor ch
  cursor := line.cursor + 1
  inside := by
    rw [List.length_insertIdx_of_le_length line.inside]
    exact Nat.succ_le_succ line.inside

def erase (line : EditLine α) : EditLine α :=
  if some : line.cursor = 0 then line
  else
    { text := line.text.eraseIdx (line.cursor - 1)
      cursor := line.cursor - 1
      inside := by
        have inside := line.inside
        rw [List.length_eraseIdx, if_pos (by omega)]
        omega }

def left (line : EditLine α) : EditLine α := ⟨line.text, line.cursor - 1, Nat.le_trans (Nat.sub_le _ _) line.inside⟩

def right (line : EditLine α) : EditLine α :=
  if less : line.cursor < line.text.length then ⟨line.text, line.cursor + 1, less⟩ else line

theorem insert_length (line : EditLine α) (ch : α) : (line.insert ch).text.length = line.text.length + 1 :=
  List.length_insertIdx_of_le_length line.inside ch

theorem erase_eq {line : EditLine α} (some : line.cursor ≠ 0) :
    line.erase.text = line.text.eraseIdx (line.cursor - 1) ∧ line.erase.cursor = line.cursor - 1 := by
  rw [erase, dif_neg some]
  exact ⟨rfl, rfl⟩

theorem erase_length {line : EditLine α} (some : line.cursor ≠ 0) : line.erase.text.length = line.text.length - 1 := by
  have inside := line.inside
  rw [(erase_eq some).1, List.length_eraseIdx, if_pos (by omega)]

theorem mem_insert {line : EditLine α} {ch other : α} (member : other ∈ (line.insert ch).text) :
    other = ch ∨ other ∈ line.text :=
  (List.mem_insertIdx line.inside).mp member

theorem mem_erase {line : EditLine α} {other : α} (member : other ∈ line.erase.text) : other ∈ line.text := by
  unfold erase at member
  split at member
  · exact member
  · exact List.mem_of_mem_eraseIdx member

section padded
variable (line : EditLine α) (d : α) (i : Nat)

theorem insert_getD (ch : α) : (line.insert ch).text.getD i d =
    if i < line.cursor then line.text.getD i d else if i = line.cursor then ch else line.text.getD (i - 1) d := by
  rw [insert, List.getD_eq_getElem?_getD, List.getElem?_insertIdx]
  have inside := line.inside
  split
  · rw [List.getD_eq_getElem?_getD]
  split
  · rw [if_pos (by omega)]
    rfl
  · rw [List.getD_eq_getElem?_getD]

theorem erase_getD (some : line.cursor ≠ 0) : line.erase.text.getD i d =
    if i < line.cursor - 1 then line.text.getD i d else line.text.getD (i + 1) d := by
  rw [(erase_eq some).1, List.getD_eq_getElem?_getD, List.getElem?_eraseIdx]
  split
  · rw [List.getD_eq_getElem?_getD]
  · rw [List.getD_eq_getElem?_getD]

end padded
end EditLine

/-! ## Common beginnings -/

section common
variable [DecidableEq α]

def commonPrefix : List α → List α → List α
  | a :: one, b :: other => if a = b then a :: commonPrefix one other else []
  | _, _ => []

theorem prefix_commonPrefix {text one other : List α} (first : text <+: one) (second : text <+: other) :
    text <+: commonPrefix one other := by
  induction text generalizing one other with
  | nil => exact List.nil_prefix
  | cons a text ih =>
    obtain ⟨rest, rfl⟩ := first
    obtain ⟨rest', rfl⟩ := second
    rw [List.cons_append, List.cons_append, commonPrefix, if_pos rfl]
    exact List.cons_prefix_cons.mpr ⟨rfl, ih (List.prefix_append _ _) (List.prefix_append _ _)⟩

/-- The longest text that begins with `text` and with which all the names begin that begin with `text`. -/
def completion (names : List (List α)) (text : List α) : List α :=
  match names.filter fun name => text.isPrefixOf name with
  | [] => text
  | name :: rest => rest.foldl commonPrefix name

end common

/-! ## Texts entered -/

/-- The last `limit` texts, without a text that repeats the one in front of it. -/
def remember [DecidableEq α] (limit : Nat) (history : List (List α)) (text : List α) : List (List α) :=
  if text = [] ∨ history.getLast? = some text then history
  else if limit ≤ history.length then history.tail ++ [text]
  else history ++ [text]

end RtThread.Lib
