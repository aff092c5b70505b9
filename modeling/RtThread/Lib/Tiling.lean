import Mathlib.Data.List.Chain

/-! Blocks laid out one after another on a number line.

A list of blocks, each with a size, tiles an interval; an entry of the layout
is a block together with the offset at which it starts.
-/

set_option autoImplicit false

namespace RtThread.Lib

variable {B : Type} (size : B → Nat)

def span : List B → Nat
  | [] => 0
  | b :: rest => size b + span rest

/-- The blocks from `start` on, each with its offset. -/
def layout (start : Nat) : List B → List (Nat × B)
  | [] => []
  | b :: rest => (start, b) :: layout (start + size b) rest

@[simp] theorem span_nil : span size ([] : List B) = 0 := rfl

@[simp] theorem span_cons (b : B) (rest : List B) : span size (b :: rest) = size b + span size rest := rfl

@[simp] theorem span_append (first rest : List B) :
    span size (first ++ rest) = span size first + span size rest := by
  induction first with
  | nil => simp
  | cons b first ih => simp [ih, Nat.add_assoc]

theorem length_le_span (positive : ∀ b : B, 0 < size b) (blocks : List B) :
    blocks.length ≤ span size blocks := by
  induction blocks with
  | nil => simp
  | cons b rest ih =>
    have := positive b
    simp only [List.length_cons, span_cons]
    omega

@[simp] theorem layout_nil (start : Nat) : layout size start ([] : List B) = [] := rfl

@[simp] theorem layout_cons (start : Nat) (b : B) (rest : List B) :
    layout size start (b :: rest) = (start, b) :: layout size (start + size b) rest := rfl

theorem layout_append (start : Nat) (first rest : List B) :
    layout size start (first ++ rest) =
      layout size start first ++ layout size (start + span size first) rest := by
  induction first generalizing start with
  | nil => simp
  | cons b first ih => simp [ih, Nat.add_assoc]

theorem mem_layout_iff {start offset : Nat} {b : B} {blocks : List B} :
    (offset, b) ∈ layout size start blocks ↔
      ∃ first rest, blocks = first ++ b :: rest ∧ offset = start + span size first := by
  constructor
  · intro member
    induction blocks generalizing start with
    | nil => simp at member
    | cons c blocks ih =>
      rcases List.mem_cons.mp member with same | member
      · cases same
        exact ⟨[], blocks, rfl, by simp⟩
      · obtain ⟨first, rest, rfl, position⟩ := ih member
        exact ⟨c :: first, rest, rfl, by simp [position, Nat.add_assoc]⟩
  · rintro ⟨first, rest, rfl, rfl⟩
    simp [layout_append]

theorem layout_split {start : Nat} {blocks : List B} {before after : List (Nat × B)} {entry : Nat × B}
    (cut : layout size start blocks = before ++ entry :: after) :
    ∃ first rest, blocks = first ++ entry.2 :: rest ∧ before = layout size start first ∧
      entry.1 = start + span size first := by
  induction before generalizing start blocks with
  | nil =>
    cases blocks with
    | nil => simp at cut
    | cons b blocks =>
      obtain ⟨rfl, -⟩ := List.cons.inj cut
      exact ⟨[], blocks, rfl, rfl, by simp⟩
  | cons other before ih =>
    cases blocks with
    | nil => simp at cut
    | cons b blocks =>
      obtain ⟨rfl, tail⟩ := List.cons.inj cut
      obtain ⟨first, rest, rfl, rfl, position⟩ := ih tail
      exact ⟨b :: first, rest, rfl, rfl, by simp [position, Nat.add_assoc]⟩

theorem layout_bounds {start offset : Nat} {b : B} {blocks : List B}
    (member : (offset, b) ∈ layout size start blocks) :
    start ≤ offset ∧ offset + size b ≤ start + span size blocks := by
  obtain ⟨first, rest, rfl, rfl⟩ := (mem_layout_iff size).mp member
  simp only [span_append, span_cons]
  omega

theorem layout_pairwise (start : Nat) (blocks : List B) :
    (layout size start blocks).Pairwise (fun x y => x.1 + size x.2 ≤ y.1) := by
  induction blocks generalizing start with
  | nil => exact .nil
  | cons b blocks ih =>
    refine List.pairwise_cons.mpr ⟨fun entry member => ?_, ih _⟩
    exact (layout_bounds size member).1

theorem layout_separate {start : Nat} {blocks : List B} {x y : Nat × B}
    (hx : x ∈ layout size start blocks) (hy : y ∈ layout size start blocks) :
    x = y ∨ x.1 + size x.2 ≤ y.1 ∨ y.1 + size y.2 ≤ x.1 := by
  have ordered := layout_pairwise size start blocks
  generalize layout size start blocks = entries at hx hy ordered
  induction entries with
  | nil => simp at hx
  | cons entry entries ih =>
    obtain ⟨front, ordered⟩ := List.pairwise_cons.mp ordered
    rcases List.mem_cons.mp hx with hx' | hx' <;> rcases List.mem_cons.mp hy with hy' | hy'
    · exact .inl (hx'.trans hy'.symm)
    · exact .inr (.inl (hx' ▸ front y hy'))
    · exact .inr (.inr (hy' ▸ front x hx'))
    · exact ih hx' hy' ordered

theorem layout_functional (positive : ∀ b : B, 0 < size b) {start offset : Nat} {b c : B}
    {blocks : List B} (hb : (offset, b) ∈ layout size start blocks)
    (hc : (offset, c) ∈ layout size start blocks) : b = c := by
  rcases layout_separate size hb hc with same | apart | apart
  · exact congrArg Prod.snd same
  · have := positive b; simp only at apart; omega
  · have := positive c; simp only at apart; omega

theorem layout_cover {start place : Nat} {blocks : List B}
    (low : start ≤ place) (high : place < start + span size blocks) :
    ∃ entry ∈ layout size start blocks, entry.1 ≤ place ∧ place < entry.1 + size entry.2 := by
  induction blocks generalizing start with
  | nil => simp at high; omega
  | cons b blocks ih =>
    by_cases here : place < start + size b
    · exact ⟨(start, b), by simp, low, here⟩
    · simp only [span_cons] at high
      obtain ⟨entry, member, covers⟩ := @ih (start + size b) (by omega) (by omega)
      exact ⟨entry, by simp [member], covers⟩

/-! ## Where blocks start -/

def starts (start : Nat) (blocks : List B) : List Nat := (layout size start blocks).map Prod.fst

@[simp] theorem starts_nil (start : Nat) : starts size start ([] : List B) = [] := rfl

@[simp] theorem starts_cons (start : Nat) (b : B) (rest : List B) :
    starts size start (b :: rest) = start :: starts size (start + size b) rest := rfl

theorem starts_append (start : Nat) (first rest : List B) : starts size start (first ++ rest) =
    starts size start first ++ starts size (start + span size first) rest := by
  simp [starts, layout_append]

theorem starts_length (start : Nat) (blocks : List B) : (starts size start blocks).length = blocks.length := by
  induction blocks generalizing start with
  | nil => rfl
  | cons b rest ih => rw [starts_cons, List.length_cons, List.length_cons, ih]

theorem mem_starts {start offset : Nat} {blocks : List B} :
    offset ∈ starts size start blocks ↔ ∃ b, (offset, b) ∈ layout size start blocks := by
  simp [starts]

theorem starts_increasing (positive : ∀ b : B, 0 < size b) (start : Nat) (blocks : List B) :
    (starts size start blocks ++ [start + span size blocks]).Pairwise (· < ·) := by
  refine List.pairwise_append.mpr ⟨?_, List.pairwise_singleton _ _, ?_⟩
  · refine List.pairwise_map.mpr ((layout_pairwise size start blocks).imp fun {x y} apart => ?_)
    have := positive x.2
    omega
  · intro a member b last
    obtain ⟨block, entry⟩ := (mem_starts size).mp member
    have bounds := layout_bounds size entry
    have := positive block
    rw [List.mem_singleton.mp last]
    omega

end RtThread.Lib
