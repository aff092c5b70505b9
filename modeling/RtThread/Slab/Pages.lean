import RtThread.Lib.Extents

/-! The page allocator of `slab.c`. A `struct rt_slab_page` is the run of pages that it stands at the start of; a
pointer to a page is the page's number, the address shifted by RT_MM_PAGE_BITS. -/

set_option autoImplicit false
namespace RtThread.Slab
open Lib

/-- The loop of `rt_slab_page_alloc`: the page found, and the list behind it. -/
def pageAlloc (npages : Nat) : List Extent → Option (Nat × List Extent)
  | [] => none
  | b :: next =>
    if b.count > npages then some (b.start, ⟨b.start + npages, b.count - npages⟩ :: next)
    else if b.count = npages then some (b.start, next)
    else (pageAlloc npages next).map fun (page, list) => (page, b :: list)

/-- The run `b` in front of the rest of the list, together with the run behind it where they meet. -/
def joinNext (b : Extent) : List Extent → List Extent
  | [] => [b]
  | c :: more => if b.start + b.count = c.start then ⟨b.start, b.count + c.count⟩ :: more else b :: c :: more

/-- The loop of `rt_slab_page_free`, `none` where an assertion of it fails. -/
def pageFree (n npages : Nat) : List Extent → Option (List Extent)
  | [] => some [⟨n, npages⟩]
  | b :: next =>
    if ¬b.count > 0 then none
    else if ¬(b.start > n ∨ b.start + b.count ≤ n) then none
    else if b.start + b.count = n then some (joinNext ⟨b.start, b.count + npages⟩ next)
    else if b.start = n + npages then some (⟨n, b.count + npages⟩ :: next)
    else if b.start > n + npages then some (⟨n, npages⟩ :: b :: next)
    else (pageFree n npages next).map (b :: ·)

section
variable {n npages page low : Nat} {pages list : List Extent}

theorem pageAlloc_recut (found : pageAlloc npages pages = some (page, list)) :
    Recut pages (⟨page, npages⟩ :: list) := by
  induction pages generalizing list with
  | nil => cases found
  | cons b next ih =>
    rw [pageAlloc] at found
    split at found
    case isTrue more =>
      cases found
      have whole : b = ⟨b.start, npages + (b.count - npages)⟩ := by
        rw [Nat.add_sub_cancel' (Nat.le_of_lt more)]
      have cut := Recut.append (Recut.cut b.start npages (b.count - npages)) (Recut.refl next)
      rw [← whole] at cut
      exact cut
    case isFalse =>
      split at found
      case isTrue fit =>
        cases found
        rw [← fit]
        exact .refl _
      case isFalse =>
        obtain ⟨⟨page', list'⟩, later, same⟩ := Option.map_eq_some_iff.mp found
        cases same
        exact ((ih later).cons b).trans (.perm (.swap ..))

theorem pageAlloc_low (found : pageAlloc npages pages = some (page, list)) (least : ∀ e ∈ pages, low < e.start) :
    ∀ e ∈ list, low < e.start := by
  induction pages generalizing list with
  | nil => cases found
  | cons b next ih =>
    obtain ⟨first, rest⟩ := List.forall_mem_cons.mp least
    rw [pageAlloc] at found
    split at found
    · cases found
      refine List.forall_mem_cons.mpr ⟨?_, rest⟩
      simp only
      omega
    · split at found
      · cases found
        exact rest
      · obtain ⟨⟨page', list'⟩, later, same⟩ := Option.map_eq_some_iff.mp found
        cases same
        exact List.forall_mem_cons.mpr ⟨first, ih later rest⟩

theorem pageAlloc_coalesced (coalesced : Coalesced pages) (found : pageAlloc npages pages = some (page, list)) :
    Coalesced list := by
  induction pages generalizing list with
  | nil => cases found
  | cons b next ih =>
    have tail := coalesced.tail
    rw [pageAlloc] at found
    split at found
    · cases found
      refine tail.cons (by simp only; omega) fun f member => ?_
      have gap := coalesced.first member
      simp only
      omega
    · split at found
      · cases found
        exact tail
      · obtain ⟨⟨page', list'⟩, later, same⟩ := Option.map_eq_some_iff.mp found
        cases same
        exact (ih tail later).cons (coalesced.positive b List.mem_cons_self)
          (pageAlloc_low later fun f => coalesced.first)

theorem joinNext_recut {b : Extent} : Recut (b :: pages) (joinNext b pages) := by
  cases pages with
  | nil => exact .refl _
  | cons c more =>
    rw [joinNext]
    split
    case isTrue meets =>
      have cut := Recut.cut b.start b.count c.count
      rw [meets] at cut
      exact cut.symm.append (.refl more)
    case isFalse => exact .refl _

theorem joinNext_coalesced {b : Extent} (coalesced : Coalesced pages) (positive : 0 < b.count)
    (after : ∀ e ∈ pages, b.start + b.count ≤ e.start) : Coalesced (joinNext b pages) := by
  cases pages with
  | nil => exact Coalesced.nil.cons positive nofun
  | cons c more =>
    have first := after c List.mem_cons_self
    rw [joinNext]
    split
    case isTrue meets =>
      refine coalesced.tail.cons (by simp only; omega) fun f member => ?_
      have gap := coalesced.first member
      simp only
      omega
    case isFalse apart =>
      refine coalesced.cons positive fun f member => ?_
      rcases List.mem_cons.mp member with rfl | far
      · omega
      · have gap := coalesced.first far
        omega

theorem joinNext_low {b : Extent} (first : low < b.start) (rest : ∀ e ∈ pages, low < e.start) :
    ∀ e ∈ joinNext b pages, low < e.start := by
  cases pages with
  | nil => exact List.forall_mem_singleton.mpr first
  | cons c more =>
    rw [joinNext]
    split
    · exact List.forall_mem_cons.mpr ⟨first, (List.forall_mem_cons.mp rest).2⟩
    · exact List.forall_mem_cons.mpr ⟨first, rest⟩

/-- The pages `n` to `n + npages` have no page of the list among them. -/
def Outside (n npages : Nat) (pages : List Extent) : Prop :=
  ∀ e ∈ pages, e.start + e.count ≤ n ∨ n + npages ≤ e.start

structure Freed (n npages low : Nat) (pages list : List Extent) : Prop where
  recut : Recut (⟨n, npages⟩ :: pages) list
  coalesced : Coalesced list
  low : low < n → (∀ e ∈ pages, low < e.start) → ∀ e ∈ list, low < e.start

theorem pageFree_freed (coalesced : Coalesced pages) (outside : Outside n npages pages) (positive : 0 < npages) :
    ∃ list, pageFree n npages pages = some list ∧ ∀ low, Freed n npages low pages list := by
  induction pages with
  | nil =>
    refine ⟨_, rfl, fun low => ⟨.refl _, Coalesced.nil.cons positive nofun, fun less _ => ?_⟩⟩
    exact List.forall_mem_singleton.mpr less
  | cons b next ih =>
    have own := coalesced.positive b List.mem_cons_self
    have tail := coalesced.tail
    have beside := outside b List.mem_cons_self
    have apart : b.start > n ∨ b.start + b.count ≤ n := by omega
    rw [pageFree, if_neg (not_not.mpr own), if_neg (not_not.mpr apart)]
    by_cases behind : b.start + b.count = n
    · rw [if_pos behind]
      subst behind
      have joined : Recut [⟨b.start + b.count, npages⟩, b] [⟨b.start, b.count + npages⟩] :=
        (Recut.perm (.swap ..)).trans (Recut.cut b.start b.count npages).symm
      have after : ∀ e ∈ next, b.start + (b.count + npages) ≤ e.start := fun e member => by
        have gap := coalesced.first member
        have later := outside e (List.mem_cons_of_mem _ member)
        omega
      refine ⟨_, rfl, fun low => ⟨?_, ?_, fun _ least => ?_⟩⟩
      · exact (joined.append (.refl next)).trans joinNext_recut
      · exact joinNext_coalesced tail (by simp only; omega) after
      · exact joinNext_low (List.forall_mem_cons.mp least).1 (List.forall_mem_cons.mp least).2
    · rw [if_neg behind]
      by_cases meets : b.start = n + npages
      · rw [if_pos meets]
        refine ⟨_, rfl, fun low => ⟨?_, ?_, fun less least => ?_⟩⟩
        · have cut := Recut.cut n npages b.count
          rw [← meets, Nat.add_comm npages] at cut
          exact (cut.append (.refl next)).symm
        · refine tail.cons (by simp only; omega) fun f member => ?_
          have far := coalesced.first member
          simp only
          omega
        · exact List.forall_mem_cons.mpr ⟨less, (List.forall_mem_cons.mp least).2⟩
      · rw [if_neg meets]
        by_cases before : b.start > n + npages
        · rw [if_pos before]
          refine ⟨_, rfl, fun low => ⟨.refl _, coalesced.cons positive ?_, fun less least => ?_⟩⟩
          · intro f member
            simp only
            rcases List.mem_cons.mp member with rfl | far
            · omega
            · have last := coalesced.first far
              omega
          · exact List.forall_mem_cons.mpr ⟨less, least⟩
        · rw [if_neg before]
          obtain ⟨list, freed, so⟩ := ih tail fun f member => outside f (List.mem_cons_of_mem _ member)
          rw [freed]
          refine ⟨_, rfl, fun low => ⟨?_, ?_, fun less least => ?_⟩⟩
          · exact (Recut.perm (.swap ..)).trans ((so low).recut.cons b)
          · refine (so low).coalesced.cons own ((so (b.start + b.count)).low (by omega) fun f => coalesced.first)
          · obtain ⟨first, rest⟩ := List.forall_mem_cons.mp least
            exact List.forall_mem_cons.mpr ⟨first, (so low).low less rest⟩

end

end RtThread.Slab
