import RtThread.Memheap.Realloc

/-! Runs of calls on a heap, from its initialisation on, and when `rt_memheap_alloc` refuses a request. -/

set_option autoImplicit false
namespace RtThread.Memheap
open Lib
open Mem (Block Coalesced Config coalesced_free)
open Mem (Block)

/-! ## Initialisation -/

/-- What an item holds after `setItem`. -/
def itemValue (addr magic next prev nextFree prevFree : Nat) : Field → Nat
  | .magic => magic
  | .poolPtr => addr
  | .next => next
  | .prev => prev
  | .nextFree => nextFree
  | .prevFree => prevFree

section
variable {h : Heap} {S : List Nat} {p q : Nat}

theorem Spaced.get_setItem (spaced : Spaced S) (pS : p ∈ S) (qS : q ∈ S) (magic next prev nextFree prevFree : Nat)
    (f : Field) : (h.setItem p magic next prev nextFree prevFree).get q f =
      if q = p then itemValue h.addr magic next prev nextFree prevFree f else h.get q f := by
  simp only [Heap.setItem, spaced.get_set pS qS, set_addr]
  by_cases own : q = p
  · cases f <;> simp [own, itemValue]
  · simp [own]

theorem sameObject_setItem (magic next prev nextFree prevFree : Nat) :
    SameObject h (h.setItem p magic next prev nextFree prevFree) :=
  (((((sameObject_set h _ _ _).trans (sameObject_set _ _ _ _)).trans (sameObject_set _ _ _ _)).trans
    (sameObject_set _ _ _ _)).trans (sameObject_set _ _ _ _)).trans (sameObject_set _ _ _ _)

end

/-- A region for a heap: aligned, inside the address space, with room for two headers, and not where
`struct rt_memheap` is. -/
structure Region (freeHeader startAddr size : Nat) : Prop where
  aligned : 8 ∣ startAddr
  top : startAddr + size ≤ 2 ^ 32
  word : size < 2 ^ 32
  room : 2 * rtMemheapSize ≤ Config.board.rtAlignDown size
  apart : freeHeader + rtMemheapSize ≤ startAddr ∨ startAddr + size ≤ freeHeader

theorem rtAlignDown_facts {size : Nat} (word : size < 2 ^ 32) :
    8 ∣ Config.board.rtAlignDown size ∧ Config.board.rtAlignDown size ≤ size := by
  refine ⟨Config.board.rtAlignDown_dvd size word, ?_⟩
  rw [Config.rtAlignDown, Config.board.mask_eq _ word]
  exact Nat.div_mul_le_self _ _

theorem firstItems_fields {h : Heap} {S : List Nat} {tail : Nat} (spaced : Spaced S) (listS : h.freeList ∈ S)
    (startS : h.startAddr ∈ S) (tailS : tail ∈ S) (start : h.startAddr ≠ h.freeList) (list : h.freeList ≠ tail)
    (front : h.startAddr ≠ tail) (last : add32 (add32 h.startAddr h.availableSize) rtMemheapSize = tail) :
    SameObject h h.firstItems ∧ ∀ f,
      h.firstItems.get h.startAddr f = itemValue h.addr (magicOf false) tail tail h.freeList h.freeList f ∧
      h.firstItems.get tail f = itemValue h.addr (magicOf true) h.startAddr h.startAddr 0 0 f ∧
      h.firstItems.get h.freeList f = itemValue h.addr (magicOf false) 0 0 h.startAddr h.startAddr f := by
  unfold Heap.firstItems
  extract_lets h₁ item h₂ h₃ h₄ h₅
  have same₁ : SameObject h h₁ := sameObject_setItem _ _ _ _ _
  have fields₁ : ∀ q ∈ S, ∀ f, h₁.get q f = if q = h.freeList then
      itemValue h.addr (magicOf false) 0 0 h.freeList h.freeList f else h.get q f :=
    fun q qS f => spaced.get_setItem listS qS _ _ _ _ _ f
  have place : item = h.startAddr := same₁.startAddr
  have same₂ : SameObject h₁ h₂ := sameObject_setItem _ _ _ _ _
  have fields₂ : ∀ q ∈ S, ∀ f, h₂.get q f = if q = item then
      itemValue h₁.addr (magicOf false) 0 0 item item f else h₁.get q f :=
    fun q qS f => spaced.get_setItem (place ▸ startS) qS _ _ _ _ _ f
  clear_value h₁ item
  subst place
  have same₃ : SameObject h₂ h₃ := sameObject_set _ _ _ _
  have fields₃ : ∀ q ∈ S, ∀ f, h₃.get q f = if q = h.startAddr ∧ f = .next then
      add32 (add32 h.startAddr h₂.availableSize) rtMemheapSize else h₂.get q f :=
    fun q qS f => spaced.get_set startS qS
  have same₄ : SameObject h₃ h₄ := sameObject_set _ _ _ _
  have fields₄ : ∀ q ∈ S, ∀ f, h₄.get q f = if q = h.startAddr ∧ f = .prev then
      h₃.get h.startAddr .next else h₃.get q f :=
    fun q qS f => spaced.get_set startS qS
  clear_value h₂ h₃ h₄
  have next : add32 (add32 h.startAddr h₂.availableSize) rtMemheapSize = tail := by
    rw [same₂.availableSize, same₁.availableSize, last]
  have same : SameObject h h₄ := ((same₁.trans same₂).trans same₃).trans same₄
  have fields : ∀ q ∈ S, ∀ f, h₄.get q f =
      if q = h.startAddr then itemValue h.addr (magicOf false) tail tail h.startAddr h.startAddr f
      else if q = h.freeList then itemValue h.addr (magicOf false) 0 0 h.freeList h.freeList f
      else h.get q f := by
    intro q qS f
    have link : h₃.get h.startAddr .next = tail := by rw [fields₃ _ startS, if_pos ⟨rfl, rfl⟩, next]
    rw [fields₄ q qS, link, fields₃ q qS, fields₂ q qS, fields₁ q qS, next, same₁.addr]
    by_cases own : q = h.startAddr
    · cases f <;> simp [own, itemValue]
    · simp [own]
  have list₄ : h₄.freeList = h.freeList := same.freeList
  have same₅ : SameObject h₄ h₅ := sameObject_insertFree
  have fields₅ : ∀ q ∈ S, ∀ f, h₅.get q f =
      if q = h.startAddr then itemValue h.addr (magicOf false) tail tail h.freeList h.freeList f
      else if q = h.freeList then itemValue h.addr (magicOf false) 0 0 h.startAddr h.startAddr f
      else h.get q f := by
    have after : h₄.get h₄.freeList .nextFree = h₄.freeList := by
      rw [list₄, fields _ listS, if_neg start.symm, if_pos rfl]
      rfl
    have hangs : Hangs S .nextFree .prevFree h₄ h₅ h₄.freeList h.startAddr h₄.freeList :=
      hangs_insertFree spaced startS (list₄ ▸ listS) (list₄ ▸ listS) after ⟨list₄ ▸ start, list₄ ▸ start⟩
    rw [list₄] at hangs
    intro q qS f
    by_cases own : q = h.startAddr
    · subst own
      have rest := hangs.rest _ startS f
      rw [fields _ startS, if_pos rfl] at rest
      rw [if_pos rfl]
      cases f with
      | nextFree => exact hangs.back.1
      | prevFree => exact hangs.front.2
      | _ => exact rest (by decide) (by decide)
    · by_cases hub : q = h.freeList
      · subst hub
        have rest := hangs.rest _ listS f
        rw [fields _ listS, if_neg own, if_pos rfl] at rest
        rw [if_neg own, if_pos rfl]
        cases f with
        | nextFree => exact hangs.front.1
        | prevFree => exact hangs.back.2
        | _ => exact rest (by decide) (by decide)
      · have old : h₄.get q f = h.get q f := by rw [fields q qS, if_neg own, if_neg hub]
        rw [if_neg own, if_neg hub, ← old]
        cases f with
        | nextFree => exact hangs.forward q qS hub own
        | prevFree => exact hangs.backward q qS hub own
        | _ => exact hangs.rest q qS _ (by decide) (by decide)
  clear_value h₅
  have next₅ : h₅.get h.startAddr .next = tail := by
    rw [fields₅ _ startS, if_pos rfl]
    rfl
  rw [next₅]
  refine ⟨(same.trans same₅).trans (sameObject_setItem _ _ _ _ _), fun f => ⟨?_, ?_, ?_⟩⟩
  · rw [spaced.get_setItem tailS startS, if_neg front, fields₅ _ startS, if_pos rfl]
  · rw [spaced.get_setItem tailS tailS, if_pos rfl, same₅.addr, same.addr]
    rfl
  · rw [spaced.get_setItem tailS listS, if_neg list, fields₅ _ listS, if_neg start.symm, if_pos rfl]

theorem repr_init {addr freeHeader startAddr size : Nat} (region : Region freeHeader startAddr size)
    (mem : Nat → Nat) : Repr (rtMemheapInit addr freeHeader startAddr size mem)
      [⟨Config.board.rtAlignDown size - 48, false⟩] [startAddr] := by
  obtain ⟨aligned, below⟩ := rtAlignDown_facts region.word
  have room := region.room
  have top := region.top
  have word := region.word
  have apart := region.apart
  rw [rtMemheapSize_eq] at room apart
  have available : sub32 (Config.board.rtAlignDown size) (2 * rtMemheapSize) = Config.board.rtAlignDown size - 48 := by
    rw [rtMemheapSize_eq, sub32_eq (by omega) (by omega)]
  have used : sub32 (Config.board.rtAlignDown size) (Config.board.rtAlignDown size - 48) = 48 := by
    rw [sub32_eq (by omega) (by omega)]
    omega
  rw [rtMemheapInit]
  simp only [available, used]
  generalize Config.board.rtAlignDown size = pool at *
  obtain ⟨h, made⟩ : ∃ h : Heap, h = Heap.mk addr startAddr pool (pool - 48) 48 startAddr freeHeader mem [48] :=
    ⟨_, rfl⟩
  rw [← made]
  have object : h.startAddr = startAddr ∧ h.poolSize = pool ∧ h.availableSize = pool - 48 ∧
      h.maxUsedSize = 48 ∧ h.blockList = startAddr ∧ h.freeList = freeHeader ∧ h.levels = [48] := by
    rw [made]
    exact ⟨rfl, rfl, rfl, rfl, rfl, rfl, rfl⟩
  obtain ⟨startAddr', poolSize, availableSize, maxUsedSize, blockList, freeList, levels⟩ := object
  clear made
  subst startAddr' poolSize freeList
  have ground : Ground h [⟨h.poolSize - 48, false⟩] := by
    refine ⟨?_, by omega, by omega, by omega, blockList, ?_⟩
    · simp only [span_cons, span_nil, itemSpan]
      omega
    · intro b inside
      rw [List.mem_singleton.mp inside]
      simp only
      omega
  have places : h.places [⟨h.poolSize - 48, false⟩] = [h.startAddr] := rfl
  have apart := ground.apart_list (p := h.startAddr) (by simp [places])
  have listTail := ground.list_apart_tail
  have last : add32 (add32 h.startAddr h.availableSize) rtMemheapSize = h.tail := by
    rw [rtMemheapSize_eq, availableSize, Heap.tail]
    simp only [add32]
    omega
  obtain ⟨same, fields⟩ := firstItems_fields ground.spaced headers_list
    (headers_place (by simp [places])) headers_tail apart.1 listTail apart.2 last
  generalize h.firstItems = k at same fields
  have placesk : k.places [⟨h.poolSize - 48, false⟩] = [h.startAddr] := same.places.trans places
  constructor
  · constructor
    · exact same.ground ground
    · rw [same.tail, placesk]
      exact .one apart.2.symm ⟨(fields .next).2.1, (fields .prev).1⟩ ⟨(fields .next).1, (fields .prev).2.1⟩
    · rw [same.freeList]
      exact .one apart.1.symm ⟨(fields .nextFree).2.2, (fields .prevFree).1⟩
        ⟨(fields .nextFree).1, (fields .prevFree).2.2⟩
    · rw [placesk]
      exact fun p inside => inside
    · rw [same.startAddr]
      intro entry inside
      rw [List.mem_singleton.mp inside, same.addr]
      exact ⟨(fields .magic).1, (fields .poolPtr).1⟩
    · rw [same.tail]
      exact (fields .magic).2.1
  · constructor
    · rw [same.availableSize, availableSize]
      simp [freeSpace]
    · rw [same.maxUsedSize, same.levels, maxUsedSize, levels]
      exact List.mem_singleton.mpr rfl
    · rw [same.maxUsedSize, same.levels, maxUsedSize, levels]
      intro level inside
      exact Nat.le_of_eq (List.mem_singleton.mp inside)
    · rw [same.levels, same.poolSize, same.availableSize, levels, availableSize, Nat.sub_sub_self room]
      rfl
  · intro q
    rw [same.startAddr, List.mem_singleton, at_cons]
    simp [At]
  · exact List.IsChain.singleton _

/-! ## Sessions -/

structure Session where
  heap : Heap
  live : List Nat

/-- `store` is a write of its user into a block. -/
inductive Call where
  | alloc (size : UInt32)
  | realloc (ptr : Option Nat) (newsize : UInt32)
  | free (ptr : Option Nat)
  | store (place value : Nat)

namespace Session

def without (s : Session) (ptr : Option Nat) : List Nat := s.live.filter fun p => ptr ≠ some p

def resized (s : Session) (ptr : Option Nat) (newsize : Nat) (heap : Heap) : Option Nat → Session
  | some new => ⟨heap, new :: s.without ptr⟩
  | none => ⟨heap, if newsize = 0 then s.without ptr else s.live⟩

def perform (bestMode : Bool) (s : Session) : Call → Option Session
  | .alloc size => (rtMemheapAlloc s.heap size.toNat).map fun (heap, new) => ⟨heap, new.toList ++ s.live⟩
  | .realloc ptr newsize => (rtMemheapRealloc bestMode s.heap ptr newsize.toNat).map fun (heap, result) =>
      s.resized ptr newsize.toNat heap result
  | .free ptr => (rtMemheapFree bestMode s.heap ptr).map fun heap => ⟨heap, s.without ptr⟩
  | .store place value => some ⟨s.heap.store place value, s.live⟩

def Permits (s : Session) : Call → Prop
  | .alloc _ => True
  | .realloc ptr _ => ∀ p ∈ ptr, p ∈ s.live
  | .free ptr => ∀ p ∈ ptr, p ∈ s.live
  | .store place _ => ∃ ptr ∈ s.live, ptr ≤ place ∧
      place < ptr + s.heap.memitemSize (sub32 ptr rtMemheapSize)

/-- No block with a free block behind it is reallocated to a size so close to the end of the address space
that adding `RT_MEMHEAP_MINIALLOC` to it wraps round. -/
def Meets (s : Session) : Call → Prop
  | .realloc (some ptr) newsize =>
    s.heap.isUsed (s.heap.get (sub32 ptr rtMemheapSize) .next) = true ∨ SmallRequest newsize.toNat
  | _ => True

def Step (bestMode : Bool) (s s' : Session) : Prop :=
  ∃ call, s.Permits call ∧ s.Meets call ∧ s.perform bestMode call = some s'

def Sound (s : Session) : Prop := ∃ blocks free, Repr s.heap blocks free ∧
  ∀ ptr, ptr ∈ s.live ↔ ∃ p, ptr = p + 24 ∧ At true s.heap.startAddr blocks p

end Session

section
variable {s : Session} {h : Heap} {blocks : List Block} {free : List Nat}

theorem Repr.header (repr : Repr h blocks free) {p : Nat} (here : At true h.startAddr blocks p) :
    sub32 (p + 24) rtMemheapSize = p := by
  have below := here.below
  have size := repr.size
  have top := repr.top
  rw [rtMemheapSize_eq, sub32]
  omega

theorem Session.mem_without {ptr q : Nat} : q ∈ s.without (some ptr) ↔ q ∈ s.live ∧ q ≠ ptr := by
  rw [Session.without, List.mem_filter, decide_eq_true_eq]
  have same : some ptr ≠ some q ↔ q ≠ ptr := by rw [ne_eq, Option.some.injEq, eq_comm]
  rw [same]

theorem Session.without_none : s.without none = s.live := by
  simp [Session.without]

theorem Session.Sound.alloc (sound : s.Sound) (size : Nat) : ∃ heap new,
    rtMemheapAlloc s.heap size = some (heap, new) ∧ Session.Sound ⟨heap, new.toList ++ s.live⟩ := by
  obtain ⟨blocks, free, repr, live⟩ := sound
  obtain ⟨heap, new, blocks', free', code, repr', region, gains⟩ := repr.alloc size
  refine ⟨heap, new, code, blocks', free', repr', fun ptr => ?_⟩
  simp only [region.startAddr]
  cases new with
  | none =>
    have same : blocks' = blocks := gains
    rw [same]
    exact live ptr
  | some new =>
    obtain ⟨p, c, rfl, -, -, -, gained⟩ := gains
    simp only [Option.toList_some, List.singleton_append, List.mem_cons, live]
    constructor
    · rintro (rfl | ⟨q, rfl, here⟩)
      · exact ⟨p, rfl, (gained p).mpr (Or.inr rfl)⟩
      · exact ⟨q, rfl, (gained q).mpr (Or.inl here)⟩
    · rintro ⟨q, rfl, here⟩
      rcases (gained q).mp here with old | rfl
      · exact Or.inr ⟨q, rfl, old⟩
      · exact Or.inl rfl

theorem Session.Sound.release (bestMode : Bool) (sound : s.Sound) {ptr : Nat} (inside : ptr ∈ s.live) : ∃ heap,
    rtMemheapFree bestMode s.heap (some ptr) = some heap ∧ Session.Sound ⟨heap, s.without (some ptr)⟩ := by
  obtain ⟨blocks, free, repr, live⟩ := sound
  obtain ⟨p, rfl, here⟩ := (live ptr).mp inside
  obtain ⟨first, c, rest, rfl, place⟩ := here.split
  obtain ⟨heap, blocks', free', code, repr', region, shrinks⟩ := repr.freed bestMode place
  refine ⟨heap, code, blocks', free', repr', fun ptr => ?_⟩
  simp only [region.startAddr, Session.mem_without, live, shrinks]
  constructor
  · rintro ⟨⟨q, rfl, old⟩, other⟩
    exact ⟨q, rfl, old, fun own => other (by rw [own])⟩
  · rintro ⟨q, rfl, old, other⟩
    exact ⟨⟨q, rfl, old⟩, fun own => other (Nat.add_right_cancel own)⟩

theorem Session.Sound.realloc (bestMode : Bool) (sound : s.Sound) {ptr : Nat} (inside : ptr ∈ s.live) {newsize : Nat}
    (fits : s.heap.isUsed (s.heap.get (sub32 ptr rtMemheapSize) .next) = true ∨ SmallRequest newsize) :
    ∃ heap result, rtMemheapRealloc bestMode s.heap (some ptr) newsize = some (heap, result) ∧
      (s.resized (some ptr) newsize heap result).Sound := by
  obtain ⟨blocks, free, repr, live⟩ := sound
  obtain ⟨p, rfl, here⟩ := (live ptr).mp inside
  rw [repr.header here] at fits
  obtain ⟨heap, result, blocks', free', code, repr', region, moves⟩ := repr.realloc bestMode here fits
  refine ⟨heap, result, code, ?_⟩
  cases result with
  | none =>
    refine ⟨blocks', free', repr', fun ptr => ?_⟩
    simp only [Session.resized, region.startAddr, moves _]
    split
    · rename_i zero
      simp only [Session.mem_without, live, zero, true_and]
      constructor
      · rintro ⟨⟨q, rfl, old⟩, other⟩
        exact ⟨q, rfl, old, fun own => other (by rw [own])⟩
      · rintro ⟨q, rfl, old, other⟩
        exact ⟨⟨q, rfl, old⟩, fun own => other (Nat.add_right_cancel own)⟩
    · rename_i some'
      simp [live, some']
  | some new =>
    obtain ⟨n, rfl, moved⟩ := moves
    refine ⟨blocks', free', repr', fun ptr => ?_⟩
    simp only [Session.resized, region.startAddr, moved, List.mem_cons, Session.mem_without, live]
    constructor
    · rintro (rfl | ⟨⟨q, rfl, old⟩, other⟩)
      · exact ⟨n, rfl, Or.inr rfl⟩
      · exact ⟨q, rfl, Or.inl ⟨old, fun own => other (by rw [own])⟩⟩
    · rintro ⟨q, rfl, ⟨old, other⟩ | rfl⟩
      · exact Or.inr ⟨⟨q, rfl, old⟩, fun own => other (Nat.add_right_cancel own)⟩
      · exact Or.inl rfl

theorem Session.Sound.store (sound : s.Sound) {ptr place : Nat} (value : Nat) (inside : ptr ∈ s.live)
    (within : ptr ≤ place ∧ place < ptr + s.heap.memitemSize (sub32 ptr rtMemheapSize)) :
    Session.Sound ⟨s.heap.store place value, s.live⟩ := by
  obtain ⟨blocks, free, repr, live⟩ := sound
  obtain ⟨p, rfl, here⟩ := (live ptr).mp inside
  obtain ⟨first, c, rest, rfl, spot⟩ := here.split
  rw [repr.header here, repr.toHeld.memitemSize_eq spot] at within
  refine ⟨_, free, ?_, live⟩
  have entry : (p, ⟨c, true⟩) ∈ layout itemSpan s.heap.startAddr (first ++ ⟨c, true⟩ :: rest) :=
    (mem_layout_iff itemSpan).mpr ⟨first, rest, rfl, spot⟩
  have same : SameObject s.heap (s.heap.store place value) := rfl
  apply repr.write entry same
  intro a out
  have other : a ≠ place := by
    rintro rfl
    exact out within
  exact if_neg other

theorem Session.Sound.step (bestMode : Bool) (sound : s.Sound) (call : Call) (permits : s.Permits call)
    (meets : s.Meets call) : ∃ s', s.perform bestMode call = some s' ∧ s'.Sound := by
  cases call with
  | alloc size =>
    obtain ⟨heap, new, code, sound'⟩ := sound.alloc size.toNat
    refine ⟨_, ?_, sound'⟩
    rw [Session.perform, code]
    rfl
  | realloc ptr newsize =>
    cases ptr with
    | none =>
      by_cases zero : newsize.toNat = 0
      · refine ⟨s.resized none newsize.toNat s.heap none, ?_, ?_⟩
        · rw [Session.perform, rtMemheapRealloc, if_pos zero]
          rfl
        · rw [Session.resized, Session.without_none, ite_self]
          exact sound
      · obtain ⟨heap, new, code, sound'⟩ := sound.alloc (requestSize newsize.toNat)
        refine ⟨s.resized none newsize.toNat heap new, ?_, ?_⟩
        · rw [Session.perform, rtMemheapRealloc, if_neg zero]
          simp only [code, Option.map_some]
        · cases new with
          | none =>
            rw [Session.resized, if_neg zero]
            exact sound'
          | some new =>
            rw [Session.resized, Session.without_none]
            exact sound'
    | some ptr =>
      obtain ⟨heap, result, code, sound'⟩ := sound.realloc bestMode (permits ptr rfl) meets
      refine ⟨_, ?_, sound'⟩
      rw [Session.perform, code]
      rfl
  | free ptr =>
    cases ptr with
    | none =>
      refine ⟨⟨s.heap, s.without none⟩, rfl, ?_⟩
      rw [Session.without_none]
      exact sound
    | some ptr =>
      obtain ⟨heap, code, sound'⟩ := sound.release bestMode (permits ptr rfl)
      refine ⟨_, ?_, sound'⟩
      rw [Session.perform, code]
      rfl
  | store place value =>
    obtain ⟨ptr, inside, within⟩ := permits
    exact ⟨_, rfl, sound.store value inside within⟩

end

/-! ## What holds in every state reached -/

/-- The headers in front of the tail are `places`, in address order, and the free list goes through `free`. -/
structure Shape (h : Heap) (places free : List Nat) : Prop where
  list : Circle (h.get · .next) (h.get · .prev) h.tail places
  first : (places ++ [h.tail]).head? = some h.startAddr ∧ h.blockList = h.startAddr
  tiles : ∀ p ∈ places, h.get p .next = p + rtMemheapSize + h.memitemSize p
  last : h.tail + rtMemheapSize = h.startAddr + h.poolSize ∧ h.isUsed h.tail = true
  marks : ∀ p ∈ places, (h.get p .magic = rtMemheapMagic ||| rtMemheapFreed ∨
    h.get p .magic = rtMemheapMagic ||| rtMemheapUsed) ∧ h.get p .poolPtr = h.addr
  frees : Circle (h.get · .nextFree) (h.get · .prevFree) h.freeList free
  freed : ∀ p, p ∈ free ↔ p ∈ places ∧ h.get p .magic = rtMemheapMagic ||| rtMemheapFreed
  coalesced : ∀ p ∈ places, h.isUsed p = true ∨ h.isUsed (h.get p .next) = true
  available : h.availableSize = ((places.filter fun p => !h.isUsed p).map h.memitemSize).sum
  peak : h.maxUsedSize ∈ h.levels ∧ ∀ level ∈ h.levels, level ≤ h.maxUsedSize
  current : h.levels.getLast? = some (h.poolSize - h.availableSize)

def WellFormed (h : Heap) : Prop := ∃ places free, Shape h places free

section
variable {h : Heap} {blocks : List Block} {free : List Nat}

theorem Repr.sum (repr : Repr h blocks free) :
    freeSpace blocks = (((h.places blocks).filter fun p => !h.isUsed p).map h.memitemSize).sum := by
  have reads : ∀ entry ∈ layout itemSpan h.startAddr blocks,
      h.isUsed entry.1 = entry.2.used ∧ h.memitemSize entry.1 = entry.2.capacity := by
    intro entry inside
    obtain ⟨first, rest, split, place⟩ := (mem_layout_iff itemSpan).mp inside
    have held := repr.toHeld
    rw [split] at held
    exact ⟨held.isUsed_eq place, held.memitemSize_eq place⟩
  unfold Heap.places
  generalize h.startAddr = start at reads
  clear repr
  induction blocks generalizing start with
  | nil => rfl
  | cons b rest ih =>
    obtain ⟨used, size⟩ := reads (start, b) List.mem_cons_self
    rw [starts_cons, List.filter_cons, used, freeSpace, ih _ fun entry inside => reads entry (List.mem_cons_of_mem _ inside)]
    cases b.used with
    | true => simp
    | false => simp [size]

theorem Repr.shape (repr : Repr h blocks free) : Shape h (h.places blocks) free := by
  have split : ∀ p ∈ h.places blocks, ∃ first c u rest,
      blocks = first ++ ⟨c, u⟩ :: rest ∧ p = h.startAddr + span itemSpan first := by
    intro p inside
    obtain ⟨⟨c, u⟩, entry⟩ := (mem_starts itemSpan).mp inside
    obtain ⟨first, rest, split, place⟩ := (mem_layout_iff itemSpan).mp entry
    exact ⟨first, c, u, rest, split, place⟩
  have size := repr.size
  constructor
  · exact repr.chain
  · refine ⟨?_, repr.first⟩
    have ends := repr.toGround.tail_eq
    rw [head_concat_hub, Heap.places, firstOr_starts ends]
  · intro p inside
    obtain ⟨first, c, u, rest, rfl, place⟩ := split p inside
    rw [(repr.toHeld.around place).1, repr.toHeld.memitemSize_eq place, rtMemheapSize_eq]
  · refine ⟨?_, repr.toHeld.tail_used⟩
    rw [rtMemheapSize_eq, Heap.tail]
    omega
  · intro p inside
    obtain ⟨first, c, u, rest, rfl, place⟩ := split p inside
    obtain ⟨mark, pool⟩ := repr.toHeld.mark place
    refine ⟨?_, pool⟩
    cases u with
    | true => exact Or.inr mark
    | false => exact Or.inl mark
  · exact repr.frees
  · intro p
    constructor
    · intro inside
      refine ⟨repr.within p inside, ?_⟩
      obtain ⟨first, c, rest, rfl, place⟩ := repr.entry inside
      exact (repr.toHeld.mark place).1
    · rintro ⟨inside, mark⟩
      obtain ⟨first, c, u, rest, rfl, place⟩ := split p inside
      rw [(repr.toHeld.mark place).1] at mark
      cases u with
      | true => exact absurd mark (by decide)
      | false =>
        rw [repr.listed, at_mid]
        exact Or.inr (Or.inl ⟨place, rfl⟩)
  · intro p inside
    obtain ⟨first, c, u, rest, rfl, place⟩ := split p inside
    rw [repr.toHeld.isUsed_eq place]
    cases u with
    | true => exact Or.inl rfl
    | false =>
      right
      exact repr.toHeld.next_used place (coalesced_free.mp repr.coalesced).2.2.2
  · rw [repr.available, repr.sum]
  · exact ⟨repr.reached, repr.highest⟩
  · exact repr.current

end

/-! ## Runs -/

variable {bestMode : Bool} {addr freeHeader startAddr size : Nat} {mem : Nat → Nat} {s : Session}

def opened (addr freeHeader startAddr size : Nat) (mem : Nat → Nat) : Session :=
  ⟨rtMemheapInit addr freeHeader startAddr size mem, []⟩

theorem sound_opened (region : Region freeHeader startAddr size) :
    (opened addr freeHeader startAddr size mem).Sound := by
  refine ⟨_, _, repr_init region mem, fun ptr => ?_⟩
  simp [opened, At]

theorem sound_run (region : Region freeHeader startAddr size)
    (run : Relation.ReflTransGen (Session.Step bestMode) (opened addr freeHeader startAddr size mem) s) :
    s.Sound := by
  induction run with
  | refl => exact sound_opened region
  | tail _ step ih =>
    obtain ⟨call, permits, meets, performed⟩ := step
    obtain ⟨s', code, sound⟩ := ih.step bestMode call permits meets
    rw [performed] at code
    cases code
    exact sound

/-- In a run whose steps all meet the condition, the heap is well formed in every state reached, and the next
call returns. -/
theorem memheap_wellFormed (region : Region freeHeader startAddr size)
    (run : Relation.ReflTransGen (Session.Step bestMode) (opened addr freeHeader startAddr size mem) s) :
    WellFormed s.heap ∧
      ∀ call, s.Permits call → s.Meets call → (s.perform bestMode call).isSome := by
  have sound := sound_run region run
  constructor
  · obtain ⟨blocks, free, repr, -⟩ := sound
    exact ⟨_, _, repr.shape⟩
  · intro call permits meets
    obtain ⟨s', code, -⟩ := sound.step bestMode call permits meets
    rw [code]
    rfl

/-- A heap of 1 KB at 0x1000. -/
def smallHeap : Session := opened 0x100 0x140 0x1000 0x400 fun _ => 0

theorem region_small : Region 0x140 0x1000 0x400 := by
  constructor <;> decide

theorem memheap_wellFormed_small : ∃ s, Relation.ReflTransGen (Session.Step false) smallHeap s ∧ s.live = [4160] ∧
    WellFormed s.heap := by
  have result : ((smallHeap.perform false (.alloc 16)).bind fun a =>
      (a.perform false (.alloc 16)).bind fun b => (b.perform false (.free (some 4120))).map (·.live)) =
      some [4160] := by decide +kernel
  obtain ⟨a, one, result⟩ := Option.bind_eq_some_iff.mp result
  obtain ⟨b, two, result⟩ := Option.bind_eq_some_iff.mp result
  obtain ⟨c, three, live⟩ := Option.map_eq_some_iff.mp result
  have before : b.live = [4160, 4120] := by
    have known : ((smallHeap.perform false (.alloc 16)).bind fun a => (a.perform false (.alloc 16)).map (·.live)) =
        some [4160, 4120] := by decide +kernel
    rw [one, Option.bind_some, two] at known
    exact Option.some.inj known
  have run : Relation.ReflTransGen (Session.Step false) smallHeap c :=
    ((Relation.ReflTransGen.single ⟨.alloc 16, trivial, trivial, one⟩).tail
      ⟨.alloc 16, trivial, trivial, two⟩).tail
        ⟨.free (some 4120), by simp [Session.Permits, before], trivial, three⟩
  exact ⟨c, run, live, (memheap_wellFormed region_small run).1⟩

/-- A block of 16 bytes with a free block behind it is reallocated to 0xFFFFFFF8 bytes. The sum with
`RT_MEMHEAP_MINIALLOC` is 8, so the block grows in place, and ends in front of its own data. -/
theorem memheap_overgrown : Region 0x140 0x1000 0x400 ∧ ∃ s,
    Relation.ReflTransGen (fun a b : Session => ∃ call, a.Permits call ∧ a.perform false call = some b) smallHeap s ∧
      ¬WellFormed s.heap := by
  have result : ((smallHeap.perform false (.alloc 16)).bind fun a =>
      (a.perform false (.realloc (some 4120) 0xFFFFFFF8)).map fun b =>
        (a.live, b.heap.get 4096 .next, b.heap.startAddr, b.heap.poolSize)) =
      some ([4120], 4112, 4096, 1024) := by decide +kernel
  obtain ⟨a, one, result⟩ := Option.bind_eq_some_iff.mp result
  obtain ⟨b, two, result⟩ := Option.map_eq_some_iff.mp result
  simp only [Prod.mk.injEq] at result
  obtain ⟨live, next, start, pool⟩ := result
  refine ⟨region_small, b, (Relation.ReflTransGen.single ⟨.alloc 16, trivial, one⟩).tail
    ⟨.realloc (some 4120) 0xFFFFFFF8, by simp [Session.Permits, live], two⟩, ?_⟩
  rintro ⟨places, free, shape⟩
  have first := shape.first.1
  have last := shape.last.1
  rw [rtMemheapSize_eq] at last
  cases places with
  | nil =>
    have same : b.heap.tail = b.heap.startAddr := by simpa using first
    omega
  | cons p places =>
    have head : p = b.heap.startAddr := by simpa using first
    have tiles := shape.tiles p List.mem_cons_self
    rw [head, start, Heap.memitemSize, next, rtMemheapSize_eq] at tiles
    exact absurd tiles (by decide)

/-! ## Refusals -/

section
def Heap.FreeBlock (h : Heap) (p : Nat) : Prop :=
  ∃ places, Circle (h.get · .next) (h.get · .prev) h.tail places ∧ p ∈ places ∧ h.isUsed p = false

/-- `RT_NULL` comes back only if every free block is too small. -/
def Complete (h : Heap) (size : Nat) (result : Option Nat) : Prop :=
  result = none → ∀ p, h.FreeBlock p → h.memitemSize p < requestSize size

def LastFit (h : Heap) (size p : Nat) : Prop :=
  h.FreeBlock p ∧ h.memitemSize p = requestSize size ∧ h.availableSize = requestSize size

section
variable {h h' : Heap} {blocks : List Block} {free : List Nat} {p size : Nat}

theorem Repr.freeBlock_iff (repr : Repr h blocks free) : h.FreeBlock p ↔ p ∈ free := by
  have shape := repr.shape
  have unused : ∀ q ∈ h.places blocks, h.isUsed q = false ↔ h.get q .magic = rtMemheapMagic ||| rtMemheapFreed := by
    intro q inside
    rcases (shape.marks q inside).1 with freed | used
    · exact iff_of_true (by unfold Heap.isUsed; rw [freed]; decide) freed
    · exact iff_of_false (by unfold Heap.isUsed; rw [used]; decide) (by rw [used]; decide)
  rw [shape.freed]
  constructor
  · rintro ⟨places, circle, inside, notUsed⟩
    rw [circle.unique shape.list] at inside
    exact ⟨inside, (unused p inside).mp notUsed⟩
  · rintro ⟨inside, freed⟩
    exact ⟨_, shape.list, inside, (unused p inside).mpr freed⟩

theorem Repr.memitemSize_le (repr : Repr h blocks free) (inside : p ∈ free) : h.memitemSize p ≤ h.availableSize := by
  obtain ⟨first, c, rest, rfl, place⟩ := repr.entry inside
  have available := repr.available
  rw [repr.toHeld.memitemSize_eq place]
  simp only [freeSpace_append, freeSpace, Bool.false_eq_true, if_false] at available
  omega

theorem Repr.alloc_none (repr : Repr h blocks free) (call : rtMemheapAlloc h size = some (h', none)) :
    h.availableSize ≤ requestSize size ∨ ∀ q ∈ free, h.memitemSize q < requestSize size := by
  by_cases some : requestSize size < h.availableSize
  · have start : h.get h.freeList .nextFree = firstOr h.freeList free := repr.frees.meet_hub.1
    have list : free = [] ++ free := rfl
    have least := requestSize_ge size
    rw [rtMemheapAlloc] at call
    simp only [if_pos some, start] at call
    rcases repr.search_eq list (by omega : 0 < requestSize size) repr.toHeld.length_lt_fuel with
      ⟨q, c, -, -, fit, found⟩ | ⟨freeSize, -, others, -⟩
    · simp only [found, if_pos fit] at call
      cases call
    · exact .inr others
  · exact .inl (Nat.le_of_not_lt some)

theorem alloc_refused (all : h.availableSize ≤ requestSize size) :
    rtMemheapAlloc h size = some (h, none) := by
  rw [rtMemheapAlloc]
  exact if_neg (Nat.not_lt.mpr all)

theorem Repr.complete_iff (repr : Repr h blocks free) {result : Option Nat}
    (call : rtMemheapAlloc h size = some (h', result)) : Complete h size result ↔ ∀ p, ¬LastFit h size p := by
  constructor
  · rintro complete p ⟨block, own, all⟩
    rw [alloc_refused (Nat.le_of_eq all)] at call
    cases call
    have small := complete rfl p block
    omega
  · rintro none rfl p block
    have inside := repr.freeBlock_iff.mp block
    rcases repr.alloc_none call with all | others
    · have most := repr.memitemSize_le inside
      by_contra large
      exact none p ⟨block, by omega, by omega⟩
    · exact others p inside

end

variable {bestMode : Bool} {addr freeHeader startAddr size : Nat} {mem : Nat → Nat} {s : Session}

/-- In every state that a run reaches whose steps all meet the condition, a request is refused for want of a large
enough free block only, unless one free block has just its size and is all that is free. -/
theorem memheap_complete (region : Region freeHeader startAddr size)
    (run : Relation.ReflTransGen (Session.Step bestMode) (opened addr freeHeader startAddr size mem) s)
    (request : Nat) :
    ∃ h' result, rtMemheapAlloc s.heap request = some (h', result) ∧
      (Complete s.heap request result ↔ ∀ p, ¬LastFit s.heap request p) := by
  obtain ⟨blocks, free, repr, -⟩ := sound_run region run
  obtain ⟨h', result, -, -, call, -⟩ := repr.alloc request
  exact ⟨h', result, call, repr.complete_iff call⟩

theorem memheap_complete_small : ∃ h' result, rtMemheapAlloc smallHeap.heap 100 = some (h', result) ∧
    (Complete smallHeap.heap 100 result ↔ ∀ p, ¬LastFit smallHeap.heap 100 p) :=
  @memheap_complete false _ _ _ _ _ _ region_small .refl 100

/-- Once every block has been given back, the heap has all its room for one request again. -/
theorem memheap_reunited (region : Region freeHeader startAddr size)
    (run : Relation.ReflTransGen (Session.Step bestMode) (opened addr freeHeader startAddr size mem) s)
    (empty : s.live = []) :
    s.heap.availableSize = s.heap.poolSize - 2 * rtMemheapSize ∧
      ∀ request, requestSize request < s.heap.availableSize →
        ∃ h' p, rtMemheapAlloc s.heap request = some (h', some p) := by
  obtain ⟨blocks, free, repr, live⟩ := sound_run region run
  have unused : ∀ p, ¬At true s.heap.startAddr blocks p := by
    intro p used
    have inside := (live (p + 24)).mpr ⟨p, rfl, used⟩
    rw [empty] at inside
    cases inside
  have total := repr.size
  have available := repr.available
  rw [rtMemheapSize_eq]
  match blocks with
  | [] =>
    simp only [span_nil, freeSpace] at total available
    exact ⟨by omega, fun request small => by omega⟩
  | ⟨c, true⟩ :: rest => exact absurd (at_cons.mpr (.inl ⟨rfl, rfl⟩)) (unused _)
  | [⟨c, false⟩] =>
    simp only [span_cons, span_nil, itemSpan, freeSpace, Bool.false_eq_true, if_false] at total available
    refine ⟨by omega, fun request small => ?_⟩
    obtain ⟨h', result, -, -, call, -⟩ := repr.alloc request
    cases result with
    | some p => exact ⟨h', p, call⟩
    | none =>
      have first : s.heap.startAddr ∈ free := (repr.listed _).mpr (at_cons.mpr (.inl ⟨rfl, rfl⟩))
      have held : Held s.heap ([] ++ [⟨c, false⟩]) free := repr.toHeld
      have whole : s.heap.memitemSize s.heap.startAddr = c := held.memitemSize_eq rfl
      rcases repr.alloc_none call with all | others
      · omega
      · have less := others _ first
        omega
  | ⟨c, false⟩ :: ⟨d, v⟩ :: rest =>
    -- two free blocks would be one
    rcases List.isChain_cons_cons.mp repr.coalesced with ⟨used | used, -⟩
    · cases used
    · exact absurd (at_cons.mpr (.inr (at_cons.mpr (.inl ⟨rfl, used⟩)))) (unused _)

theorem memheap_reunited_small : ∃ s, Relation.ReflTransGen (Session.Step false) smallHeap s ∧
    ∃ h' p, rtMemheapAlloc s.heap 900 = some (h', some p) := by
  have result : ((smallHeap.perform false (.alloc 16)).bind fun a => (a.perform false (.free (some 4120))).map fun b =>
      (a.live, b.live, b.heap.availableSize)) = some ([4120], [], 976) := by decide +kernel
  obtain ⟨a, one, result⟩ := Option.bind_eq_some_iff.mp result
  obtain ⟨b, two, result⟩ := Option.map_eq_some_iff.mp result
  simp only [Prod.mk.injEq] at result
  have run : Relation.ReflTransGen (Session.Step false) smallHeap b :=
    (Relation.ReflTransGen.single ⟨.alloc 16, trivial, trivial, one⟩).tail
      ⟨.free (some 4120), by simp [Session.Permits, result.1], trivial, two⟩
  have small : requestSize 900 < b.heap.availableSize := by
    rw [result.2.2]
    decide
  exact ⟨b, run, (memheap_reunited region_small run result.2.1).2 900 small⟩

/-- A fresh heap of 1 KB has one free block of 976 bytes, and refuses a request for them. -/
theorem memheap_incomplete :
    rtMemheapAlloc smallHeap.heap 976 = some (smallHeap.heap, none) ∧ ¬Complete smallHeap.heap 976 none := by
  have sizes : requestSize 976 = 976 ∧ smallHeap.heap.availableSize = 976 := by decide
  refine ⟨alloc_refused (by omega), fun complete => ?_⟩
  have repr : Repr smallHeap.heap _ [0x1000] := repr_init region_small fun _ => 0
  have small := complete rfl 0x1000 (repr.freeBlock_iff.mpr List.mem_cons_self)
  have own : smallHeap.heap.memitemSize 0x1000 = 976 := by decide +kernel
  omega

end

end RtThread.Memheap
