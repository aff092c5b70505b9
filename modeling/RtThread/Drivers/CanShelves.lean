import RtThread.Drivers.CanBoxes

/-! The receive boxes of a CAN device on their lists, and what each critical section does to them. -/

set_option autoImplicit false
namespace RtThread.Can
open Lib
open Function (update)

/-! ## Boxes on shelves -/

def owned (owner : Nat → Option Nat) (use : List Nat) (k : Nat) : List Nat := use.filter fun i => owner i = some k

def shelves (free use : List Nat) (owner : Nat → Option Nat) : CanNode → Option (List CanNode)
  | .freelist => some (free.map .list)
  | .uselist => some (use.map .list)
  | .hdr k => some ((owned owner use k).map .hdrlist)
  | .list i => if i ∈ free ++ use then none else some []
  | .hdrlist i => if (owner i).isSome then none else some []

structure Shelved (d : CanDevice) (free use : List Nat) : Prop where
  rings : Rings d.links (shelves free use d.owner)
  nodup : (free ++ use).Nodup
  owners : ∀ i, i ∉ use → d.owner i = none
  msgs : ∀ k, (d.hdr k).msgs = (owned d.owner use k).length

/-- A read for the filter index, or for any with -1, is served with the box of this owner. -/
def Asked (hdr : Int) (owner : Option Nat) : Prop := hdr = -1 ∨ ∃ k : Nat, owner = some k ∧ hdr = k

variable {c : CanConfigure} {d d' : CanDevice} {l : Links CanNode} {free use xs ys : List Nat} {owner : Nat → Option Nat}
  {i k : Nat}

theorem owned_update (out : i ∉ use) (o : Option Nat) : owned (update owner i o) use k = owned owner use k := by
  refine List.filter_congr fun j inside => ?_
  have differ : j ≠ i := by
    rintro rfl
    exact out inside
  rw [Function.update_of_ne differ]

theorem owned_append : owned owner (xs ++ ys) k = owned owner xs k ++ owned owner ys k := List.filter_append ..

theorem owned_own (own : owner i = some k) : owned owner (xs ++ i :: ys) k = owned owner xs k ++ i :: owned owner ys k := by
  rw [owned_append]
  simp [owned, own]

theorem owned_other (other : owner i ≠ some k) : owned owner (xs ++ i :: ys) k = owned owner (xs ++ ys) k := by
  rw [owned_append, owned_append]
  simp [owned, other]

theorem update_none (alone : owner i = none) : update owner i none = owner := by
  rw [← alone, Function.update_eq_self]

attribute [local simp] shelves

theorem rings_takeFree (rings : Rings l (shelves (i :: free) use owner)) (nodup : (i :: free ++ use).Nodup)
    (alone : owner i = none) : Rings ((l.remove (.list i)).remove (.hdrlist i)) (shelves free use owner) := by
  have here : shelves (i :: free) use owner .freelist = some ([] ++ CanNode.list i :: free.map .list) := rfl
  have taken := rings.remove here
  have same : update (update (shelves (i :: free) use owner) .freelist (some (free.map .list)))
      (.list i) (some []) = shelves free use owner := by
    have out : i ∉ free ++ use := (List.nodup_cons.mp nodup).1
    funext node
    cases node with
    | freelist => rfl
    | uselist => rfl
    | hdr k => rfl
    | list j =>
      by_cases own : j = i
      · subst own
        rw [Function.update_self, shelves, if_neg out]
      · rw [Function.update_of_ne (by simp [own]), Function.update_of_ne (by simp)]
        simp [own]
    | hdrlist j => rfl
  rw [List.nil_append, same] at taken
  rwa [taken.remove_alone (by simp [alone])]

theorem rings_takeUse (rings : Rings l (shelves free (xs ++ i :: ys) owner)) (nodup : (free ++ (xs ++ i :: ys)).Nodup) :
    Rings ((l.remove (.list i)).remove (.hdrlist i)) (shelves free (xs ++ ys) (update owner i none)) := by
  have out : i ∉ free ++ (xs ++ ys) := by
    have perm : (free ++ (xs ++ i :: ys)).Perm (i :: (free ++ (xs ++ ys))) :=
      (List.perm_middle.append_left free).trans List.perm_middle
    exact (List.nodup_cons.mp (perm.nodup_iff.mp nodup)).1
  have outUse : i ∉ xs ++ ys := fun inside => out (List.mem_append_right _ inside)
  have here : shelves free (xs ++ i :: ys) owner .uselist = some (xs.map .list ++ CanNode.list i :: ys.map .list) := by
    simp
  have unlisted := rings.remove here
  cases own : owner i with
  | none =>
    have alone : update (update (shelves free (xs ++ i :: ys) owner) .uselist
        (some (xs.map CanNode.list ++ ys.map .list))) (.list i) (some []) (.hdrlist i) = some [] := by
      simp [own]
    rw [unlisted.remove_alone alone, update_none own]
    refine unlisted.congr fun node => ?_
    cases node with
    | freelist => rfl
    | uselist => simp
    | hdr k =>
      have other : owner i ≠ some k := by simp [own]
      simp [owned_other other]
    | list j =>
      by_cases same : j = i
      · subst same
        rw [Function.update_self, shelves, if_neg out]
      · simp [same]
    | hdrlist j => rfl
  | some k =>
    have there : update (update (shelves free (xs ++ i :: ys) owner) .uselist
        (some (xs.map CanNode.list ++ ys.map .list))) (.list i) (some []) (.hdr k) =
        some ((owned owner xs k).map .hdrlist ++ CanNode.hdrlist i :: (owned owner ys k).map .hdrlist) := by
      simp [owned_own own]
    refine (unlisted.remove there).congr fun node => ?_
    cases node with
    | freelist => rfl
    | uselist => simp
    | hdr k' =>
      by_cases same : k' = k
      · subst same
        simp [owned_update outUse, owned_append]
      · have other : owner i ≠ some k' := by simp [own, Ne.symm same]
        simp [owned_update outUse, same, owned_other other]
    | list j =>
      by_cases same : j = i
      · subst same
        simp only [shelves, if_neg out]
        simp
      · simp [same]
    | hdrlist j =>
      by_cases same : j = i
      · subst same
        simp
      · simp [same]

theorem rings_put (rings : Rings l (shelves free use owner)) (out : i ∉ free ++ use) (alone : owner i = none) :
    Rings (l.insertBefore .uselist (.list i)) (shelves free (use ++ [i]) owner) := by
  have here : shelves free use owner .uselist = some (use.map .list) := rfl
  refine (rings.insertBefore here (n := .list i) (by rw [shelves, if_neg out]) (by simp)).congr fun node => ?_
  cases node with
  | freelist => rfl
  | uselist => simp
  | hdr k =>
    have other : owner i ≠ some k := by simp [alone]
    simp [owned_other other]
  | list j =>
    by_cases same : j = i
    · subst same
      simp
    · simp [same]
  | hdrlist j => rfl

theorem rings_hang (rings : Rings l (shelves free (use ++ [i]) owner)) (out : i ∉ use) (alone : owner i = none) :
    Rings (l.insertBefore (.hdr k) (.hdrlist i)) (shelves free (use ++ [i]) (update owner i (some k))) := by
  have other (k' : Nat) : owner i ≠ some k' := by simp [alone]
  have here : shelves free (use ++ [i]) owner (.hdr k) = some ((owned owner use k).map .hdrlist) := by
    simp [owned_other (other k)]
  refine (rings.insertBefore here (n := .hdrlist i) (by simp [alone]) (by simp)).congr fun node => ?_
  cases node with
  | freelist => rfl
  | uselist => rfl
  | hdr k' =>
    by_cases same : k' = k
    · subst same
      have itself : owned (update owner i (some k')) [i] k' = [i] := by simp [owned]
      simp [owned_append, owned_update out, itself]
    · have notIts : update owner i (some k) i ≠ some k' := by simp [Ne.symm same]
      simp [same, owned_other notIts, owned_other (other k'), owned_update out]
  | list j => rfl
  | hdrlist j =>
    by_cases same : j = i
    · subst same
      simp
    · simp [same]

theorem rings_give (rings : Rings l (shelves free use owner)) (out : i ∉ free ++ use) :
    Rings (l.insertBefore .freelist (.list i)) (shelves (free ++ [i]) use owner) := by
  have here : shelves free use owner .freelist = some (free.map .list) := rfl
  refine (rings.insertBefore here (n := .list i) (by rw [shelves, if_neg out]) (by simp)).congr fun node => ?_
  cases node with
  | freelist => simp
  | uselist => rfl
  | hdr k => rfl
  | list j =>
    by_cases same : j = i
    · subst same
      simp
    · simp [same]
  | hdrlist j => rfl

/-! ## What each critical section does to the shelves -/

theorem Shelved.isEmpty_free (s : Shelved d free use) : d.isEmpty .freelist = true ↔ free = [] := by
  have circle := s.rings.circle .freelist _ rfl
  simpa [CanDevice.isEmpty] using circle.next_eq_hub

theorem Shelved.isEmpty_use (s : Shelved d free use) : d.isEmpty .uselist = true ↔ use = [] := by
  have circle := s.rings.circle .uselist _ rfl
  simpa [CanDevice.isEmpty] using circle.next_eq_hub

theorem Shelved.isEmpty_hdr (s : Shelved d free use) : d.isEmpty (.hdr k) = true ↔ owned d.owner use k = [] := by
  have circle := s.rings.circle (.hdr k) _ rfl
  simpa [CanDevice.isEmpty] using circle.next_eq_hub

theorem Shelved.counts (s : Shelved d free use) (rcvpkg dropedrcvpkg freenumbers : Nat) :
    Shelved { d with rcvpkg, dropedrcvpkg, freenumbers } free use :=
  ⟨s.rings, s.nodup, s.owners, s.msgs⟩

theorem Shelved.takeFree (s : Shelved d (i :: free) use) : Shelved ((d.unlist i).unhang i (d.owner i)) free use := by
  have fresh : i ∉ use := fun inside => (List.nodup_cons.mp s.nodup).1 (List.mem_append_right _ inside)
  have alone : d.owner i = none := s.owners i fresh
  constructor
  · simpa [CanDevice.unhang, CanDevice.unlist, update_none alone] using rings_takeFree s.rings s.nodup alone
  · exact (List.nodup_cons.mp s.nodup).2
  · intro j out
    simpa [CanDevice.unhang, CanDevice.unlist, update_none alone] using s.owners j out
  · intro k
    simpa [CanDevice.unhang, CanDevice.unlist, update_none alone, alone] using s.msgs k

theorem Shelved.takeUse (xs : List Nat) (s : Shelved d free (xs ++ i :: ys)) :
    Shelved ((d.unlist i).unhang i (d.owner i)) free (xs ++ ys) := by
  have perm : (free ++ (xs ++ i :: ys)).Perm (i :: (free ++ (xs ++ ys))) :=
    (List.perm_middle.append_left free).trans List.perm_middle
  have nodup := List.nodup_cons.mp (perm.nodup_iff.mp s.nodup)
  have out : i ∉ xs ++ ys := fun inside => nodup.1 (List.mem_append_right _ inside)
  constructor
  · exact rings_takeUse s.rings s.nodup
  · exact nodup.2
  · intro j notIn
    by_cases same : j = i
    · simp [CanDevice.unhang, same]
    · have before : j ∉ xs ++ i :: ys := by simpa [same] using notIn
      simpa [CanDevice.unhang, CanDevice.unlist, same] using s.owners j before
  · intro k
    have before := s.msgs k
    cases own : d.owner i with
    | none =>
      have other : d.owner i ≠ some k := by simp [own]
      rw [owned_other other] at before
      simpa [CanDevice.unhang, CanDevice.unlist, owned_update out] using before
    | some k' =>
      by_cases same : k = k'
      · subst same
        rw [owned_own own] at before
        simp [CanDevice.unhang, CanDevice.unlist, owned_update out, owned_append, before]
      · have other : d.owner i ≠ some k := by simp [own, Ne.symm same]
        rw [owned_other other] at before
        simpa [CanDevice.unhang, CanDevice.unlist, owned_update out, same] using before

theorem Shelved.entry_free (s : Shelved d (i :: free) use) : d.entry .freelist = some i := by
  have here : shelves (i :: free) use d.owner .freelist = some (.list i :: free.map .list) := rfl
  have first : d.links.next .freelist = .list i := s.rings.first here
  simp only [CanDevice.entry, first]

theorem Shelved.entry_use (s : Shelved d free (i :: use)) : d.entry .uselist = some i := by
  have here : shelves free (i :: use) d.owner .uselist = some (.list i :: use.map .list) := rfl
  have first : d.links.next .uselist = .list i := s.rings.first here
  simp only [CanDevice.entry, first]

section
variable (s : Shelved d free use)
include s

theorem Shelved.entry_hdr {rest : List Nat} (own : owned d.owner use k = i :: rest) :
    d.hdrEntry (.hdr k) = some i := by
  have here : shelves free use d.owner (.hdr k) = some (.hdrlist i :: rest.map .hdrlist) := by simp [own]
  have first : d.links.next (.hdr k) = .hdrlist i := s.rings.first here
  simp only [CanDevice.hdrEntry, first]

theorem Shelved.rxTake {out : Option Nat} (taken : d.rxTake = some (d', out)) :
    d'.data = d.data ∧
    ((∃ i rest, free = i :: rest ∧ out = some i ∧ Shelved d' rest use ∧ d'.freenumbers = d.freenumbers - 1 ∧
        d'.owner = d.owner) ∨
      free = [] ∧ d'.freenumbers = d.freenumbers ∧
        ((∃ i rest, use = i :: rest ∧ out = some i ∧ Shelved d' [] rest ∧ d'.owner = update d.owner i none) ∨
          use = [] ∧ out = none ∧ Shelved d' [] [] ∧ d'.owner = d.owner)) := by
  have counted := s.counts (d.rcvpkg + 1) d.dropedrcvpkg d.freenumbers
  unfold CanDevice.rxTake at taken
  dsimp only at taken
  cases free with
  | cons i rest =>
    have full : CanDevice.isEmpty { d with rcvpkg := d.rcvpkg + 1 } .freelist = false := by
      simpa using counted.isEmpty_free
    rw [if_pos full] at taken
    simp only [counted.entry_free] at taken
    split at taken
    case isFalse => cases taken
    case isTrue =>
      cases taken
      have fresh : i ∉ use := fun inside => (List.nodup_cons.mp s.nodup).1 (List.mem_append_right _ inside)
      refine ⟨rfl, Or.inl ⟨i, rest, rfl, rfl, counted.takeFree.counts _ _ _, rfl, update_none (s.owners i fresh)⟩⟩
  | nil =>
    have empty : CanDevice.isEmpty { d with rcvpkg := d.rcvpkg + 1 } .freelist = true := counted.isEmpty_free.mpr rfl
    rw [if_neg (by simp [empty])] at taken
    cases use with
    | cons i rest =>
      have full : CanDevice.isEmpty { d with rcvpkg := d.rcvpkg + 1 } .uselist = false := by
        simpa using counted.isEmpty_use
      rw [if_pos full] at taken
      simp only [counted.entry_use] at taken
      cases taken
      have dropping := s.counts (d.rcvpkg + 1) (d.dropedrcvpkg + 1) d.freenumbers
      exact ⟨rfl, Or.inr ⟨rfl, rfl, Or.inl ⟨i, rest, rfl, rfl, dropping.takeUse [], rfl⟩⟩⟩
    | nil =>
      have none : CanDevice.isEmpty { d with rcvpkg := d.rcvpkg + 1 } .uselist = true := counted.isEmpty_use.mpr rfl
      rw [if_neg (by simp [none])] at taken
      cases taken
      exact ⟨rfl, Or.inr ⟨rfl, rfl, Or.inr ⟨rfl, rfl, counted, rfl⟩⟩⟩

theorem Shelved.rxPut {tmpmsg : CanMsg} (out : i ∉ free ++ use)
    (put : d.rxPut c i tmpmsg = some d') :
    Shelved d' free (use ++ [i]) ∧ d'.data = d.data ∧ d'.freenumbers = d.freenumbers ∧
      ∃ o, d'.owner = update d.owner i o ∧ ∀ k, o = some k → tmpmsg.hdrIndex = k := by
  have fresh : i ∉ use := fun inside => out (List.mem_append_right _ inside)
  have alone : d.owner i = none := s.owners i fresh
  have nodup : (free ++ (use ++ [i])).Nodup := by
    rw [← List.append_assoc]
    exact (List.perm_append_singleton i _).nodup_iff.mpr (List.nodup_cons.mpr ⟨out, s.nodup⟩)
  have filed := rings_put s.rings out alone
  have later (j : Nat) (notIn : j ∉ use ++ [i]) : d.owner j = none :=
    s.owners j fun inside => notIn (List.mem_append_left _ inside)
  unfold CanDevice.rxPut at put
  split at put
  case isFalse => cases put
  case isTrue known =>
    dsimp only at put
    split at put
    case isTrue =>
      cases put
      refine ⟨⟨rings_hang filed fresh alone, nodup, fun j notIn => ?_, fun k => ?_⟩, rfl, rfl, _, rfl, fun k isK => ?_⟩
      · have differ : j ≠ i := by
          rintro rfl
          exact notIn (by simp)
        exact (Function.update_of_ne differ _ _).trans (later j notIn)
      · have before := s.msgs k
        by_cases same : k = tmpmsg.hdrIndex.toNat
        · subst same
          have itself : owned (update d.owner i (some tmpmsg.hdrIndex.toNat)) [i] tmpmsg.hdrIndex.toNat = [i] := by
            simp [owned]
          simp [owned_append, owned_update fresh, itself, before]
        · have other : update d.owner i (some tmpmsg.hdrIndex.toNat) i ≠ some k := by simp [Ne.symm same]
          simp [same, owned_other other, owned_update fresh, before]
      · cases isK
        exact (Int.toNat_of_nonneg known.2).symm
    case isFalse =>
      cases put
      refine ⟨⟨filed, nodup, later, fun k => ?_⟩, rfl, rfl, none, (update_none alone).symm, nofun⟩
      have other : d.owner i ≠ some k := by simp [alone]
      simpa [owned_other other] using s.msgs k

theorem Shelved.readTake {hdr : Int} {out : Option Nat} (taken : d.readTake c hdr = some (d', out)) :
    out = none ∧ d' = d ∨
    ∃ xs i ys, use = xs ++ i :: ys ∧ out = some i ∧ Asked hdr (d.owner i) ∧ (∀ j ∈ xs, ¬Asked hdr (d.owner j)) ∧
      Shelved d' free (xs ++ ys) ∧ d'.data = d.data ∧ d'.freenumbers = d.freenumbers ∧
      d'.owner = update d.owner i none := by
  unfold CanDevice.readTake at taken
  split at taken
  case isTrue wants =>
    obtain ⟨nonneg, _, some⟩ := wants
    have notNil : owned d.owner use hdr.toNat ≠ [] := fun isNil => by simp [s.isEmpty_hdr.mpr isNil] at some
    obtain ⟨i, rest, own⟩ := List.exists_cons_of_ne_nil notNil
    rw [s.entry_hdr own] at taken
    cases taken
    obtain ⟨xs, ys, rfl, before, isOwner, _⟩ := List.filter_eq_cons_iff.mp own
    have isOwner : d.owner i = Option.some hdr.toNat := by simpa using isOwner
    have isIndex : hdr = (hdr.toNat : Int) := (Int.toNat_of_nonneg nonneg).symm
    have isAny : hdr ≠ -1 := by omega
    right
    refine ⟨xs, i, ys, rfl, rfl, Or.inr ⟨_, isOwner, isIndex⟩, fun j inside asked => ?_, ?_, rfl, rfl, rfl⟩
    · rcases asked with any | ⟨k, isK, same⟩
      · exact isAny any
      · have index : k = hdr.toNat := by omega
        have notOwner := before j inside
        simp [isK, index] at notOwner
    · have done := s.takeUse _
      rwa [isOwner] at done
  case isFalse =>
    split at taken
    case isTrue wants =>
      obtain ⟨isAny, some⟩ := wants
      have notNil : use ≠ [] := fun isNil => by simp [s.isEmpty_use.mpr isNil] at some
      obtain ⟨i, rest, rfl⟩ := List.exists_cons_of_ne_nil notNil
      rw [s.entry_use] at taken
      cases taken
      exact Or.inr ⟨[], i, rest, rfl, rfl, Or.inl isAny, nofun, s.takeUse [], rfl, rfl, rfl⟩
    case isFalse =>
      cases taken
      exact Or.inl ⟨rfl, rfl⟩

theorem Shelved.readGive (out : i ∉ free ++ use) (given : d.readGive c i = some d') :
    Shelved d' (free ++ [i]) use ∧ d'.data = d.data ∧ d'.freenumbers = d.freenumbers + 1 ∧ d'.owner = d.owner := by
  unfold CanDevice.readGive at given
  dsimp only at given
  split at given
  case isFalse => cases given
  case isTrue =>
    cases given
    have perm : (free ++ [i] ++ use).Perm (i :: (free ++ use)) := by
      rw [List.append_assoc, List.singleton_append]
      exact List.perm_middle
    exact ⟨⟨rings_give s.rings out, perm.nodup_iff.mpr (List.nodup_cons.mpr ⟨out, s.nodup⟩), s.owners, s.msgs⟩, rfl, rfl, rfl⟩

theorem Shelved.connect (empty : d.isEmpty (.hdr k) = true) : Shelved (d.connect k) free use := by
  have isNil : owned d.owner use k = [] := s.isEmpty_hdr.mp empty
  refine ⟨?_, s.nodup, s.owners, fun k' => ?_⟩
  · have alone : shelves free use d.owner (.hdr k) = some [] := by simp [isNil]
    change Rings (d.links.init (.hdr k)) _
    rw [s.rings.init_alone alone]
    exact s.rings
  · by_cases same : k' = k
    · subst same
      simp [CanDevice.connect, isNil]
    · simpa [CanDevice.connect, same] using s.msgs k'

theorem Shelved.disconnect (empty : (d.hdr k).connected = true → d.isEmpty (.hdr k) = true) :
    Shelved (d.disconnect k) free use := by
  unfold CanDevice.disconnect
  split
  case isTrue connected =>
    have isNil : owned d.owner use k = [] := s.isEmpty_hdr.mp (empty connected)
    rw [if_pos (empty connected)]
    refine ⟨s.rings, s.nodup, s.owners, fun k' => ?_⟩
    by_cases same : k' = k
    · subst same
      simp [isNil]
    · simpa [same] using s.msgs k'
  case isFalse => exact s

end

end RtThread.Can
