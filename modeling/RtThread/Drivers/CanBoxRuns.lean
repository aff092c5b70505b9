import RtThread.Drivers.CanShelves
import RtThread.Lib.Custody
import RtThread.Lib.Throughout

/-! Where each receive box of a CAN device is, in every run of interrupts, reads and changes of the filters. -/

set_option autoImplicit false
namespace RtThread.Can
open Lib
open Function (update update_of_ne update_self)

def CanProc.held : CanProc → List Nat
  | .rxCopy listmsg _ => [listmsg]
  | .rxPut listmsg _ => [listmsg]
  | .readCopy _ listmsg => [listmsg]
  | .readGive _ listmsg => [listmsg]
  | _ => []

def CanProc.reading (d : CanDevice) : CanProc → Option (CanRead × List CanMsg)
  | .read r => some (r, [])
  | .readCopy r listmsg => some (r, [d.data listmsg])
  | .readGive r _ => some (r, [])
  | .readDone r => some (r, [])
  | _ => none

/-! ## What the boxes are for -/

section holds
variable (c : CanConfigure) (w : CanWorld)

/-- The messages of the boxes in use are those that arrived, in order, and each read has taken the first of those it
asked for. -/
structure Mail (use : List Nat) : Prop where
  arrival : use.Pairwise fun i j => w.number i < w.number j
  mail : ∀ i ∈ use, w.arrived[w.number i]? = some (w.dev.data i)
  sorts : ∀ i ∈ use, ∀ k : Nat, w.dev.owner i = some k → (w.dev.data i).hdrIndex = k
  dropped : ∀ x ∈ w.dropped, x.2 = 0 ∧ x.1 < w.arrived.length ∧ ∀ i ∈ use, x.1 < w.number i
  order : ∀ t, (w.taken t).Pairwise fun a b => a.1 = b.1 → a.2 < b.2
  known : ∀ t, ∀ x ∈ w.taken t, ∃ m, w.arrived[x.2]? = some m ∧ (x.1 = -1 ∨ m.hdrIndex = x.1)
  first : ∀ t, ∀ x ∈ w.taken t, ∀ i ∈ use, Asked x.1 (w.dev.owner i) → x.2 < w.number i

structure Reads (t : Nat) (r : CanRead) (next : List CanMsg) : Prop where
  copied : (w.taken t).map (fun x => w.arrived[x.2]?) = (r.data ++ next).map some
  inside : r.data.length * c.msgSize.toNat ≤ r.size.toNat

/-- Between the critical sections: each box is free, in use, or in the hands of one call; the counters and the lists of
the filters agree with that; and what is read is what arrived. -/
structure Holds (free use : List Nat) : Prop where
  freelist : Circle w.dev.links.next w.dev.links.prev .freelist (free.map .list)
  uselist : Circle w.dev.links.next w.dev.links.prev .uselist (use.map .list)
  boxes : Custody (List.range c.msgboxsz) (free ++ use) fun t => (w.procs t).held
  freenumbers : w.dev.freenumbers = free.length
  filters : ∀ k,
    Circle w.dev.links.next w.dev.links.prev (.hdr k) ((owned w.dev.owner use k).map .hdrlist) ∧
      (w.dev.hdr k).msgs = (owned w.dev.owner use k).length
  mail : Mail w use
  reads : ∀ t r next, (w.procs t).reading w.dev = some (r, next) → Reads c w t r next

def Sound : Prop := ∃ free use, Holds c w free use

/-- What must be so before a step. A message that is copied must fit the buffer of the read; a filter that is connected,
or disconnected, must have no box. -/
def Room : CanAction → Prop
  | .go t =>
    match w.procs t with
    | .readCopy r _ => (r.data.length + 1) * c.msgSize.toNat ≤ r.size.toNat
    | .connect bank _ => w.dev.isEmpty (.hdr bank) = true
    | .setFilter false (bank :: _) =>
      0 ≤ bank → bank < c.maxhdr → (w.dev.hdr bank.toNat).connected = true → w.dev.isEmpty (.hdr bank.toNat) = true
    | _ => True
  | _ => True

/-- The invariant behind `Holds` -/
structure CanInv (free use : List Nat) : Prop where
  shelved : Shelved w.dev free use
  boxes : Custody (List.range c.msgboxsz) (free ++ use) fun t => (w.procs t).held
  freenumbers : w.dev.freenumbers = free.length
  mail : Mail w use
  reads : ∀ t r next, (w.procs t).reading w.dev = some (r, next) → Reads c w t r next
  puts : ∀ t i m, w.procs t = .rxPut i m → w.dev.data i = m

end holds

variable {c : CanConfigure} {w w' : CanWorld} {free use xs ys : List Nat} {t i k : Nat}

theorem CanInv.holds (inv : CanInv c w free use) : Holds c w free use where
  freelist := inv.shelved.rings.circle _ _ rfl
  uselist := inv.shelved.rings.circle _ _ rfl
  boxes := inv.boxes
  freenumbers := inv.freenumbers
  filters k := ⟨inv.shelved.rings.circle _ _ rfl, inv.shelved.msgs k⟩
  mail := inv.mail
  reads := inv.reads

/-! ## Messages -/

theorem Mail.keep (mail : Mail w use) (owner : w'.dev.owner = w.dev.owner) (data : ∀ i ∈ use, w'.dev.data i = w.dev.data i)
    (arrived : w'.arrived = w.arrived) (number : w'.number = w.number) (taken : w'.taken = w.taken)
    (dropped : w'.dropped = w.dropped) : Mail w' use := by
  refine ⟨?_, ?_, ?_, ?_, ?_, ?_, ?_⟩
  · simpa only [number] using mail.arrival
  · intro i inside
    rw [arrived, number, data i inside]
    exact mail.mail i inside
  · intro i inside
    rw [owner, data i inside]
    exact mail.sorts i inside
  · simpa only [dropped, arrived, number] using mail.dropped
  · simpa only [taken] using mail.order
  · simpa only [taken, arrived] using mail.known
  · simpa only [taken, owner, number] using mail.first

theorem Mail.leave (xs : List Nat) (mail : Mail w (xs ++ i :: ys)) (out : i ∉ xs ++ ys)
    (owner : w'.dev.owner = update w.dev.owner i none) (data : w'.dev.data = w.dev.data)
    (arrived : w'.arrived = w.arrived) (number : w'.number = w.number) (taken : w'.taken = w.taken)
    (dropped : w'.dropped = w.dropped) : Mail w' (xs ++ ys) := by
  have within : ∀ j ∈ xs ++ ys, j ∈ xs ++ i :: ys ∧ update w.dev.owner i none j = w.dev.owner j := by
    intro j inside
    have differ : j ≠ i := by
      rintro rfl
      exact out inside
    refine ⟨?_, update_of_ne differ _ _⟩
    rw [List.mem_append] at inside ⊢
    exact inside.imp_right (List.mem_cons_of_mem i)
  have fewer : (xs ++ ys).Sublist (xs ++ i :: ys) := (List.sublist_cons_self i ys).append_left xs
  refine ⟨?_, ?_, ?_, ?_, ?_, ?_, ?_⟩
  · rw [number]
    exact mail.arrival.sublist fewer
  · intro j inside
    rw [arrived, number, data]
    exact mail.mail j (within j inside).1
  · intro j inside
    rw [owner, data, (within j inside).2]
    exact mail.sorts j (within j inside).1
  · rw [dropped, arrived, number]
    exact fun x has => ⟨(mail.dropped x has).1, (mail.dropped x has).2.1, fun j inside => (mail.dropped x has).2.2 j (within j inside).1⟩
  · simpa only [taken] using mail.order
  · simpa only [taken, arrived] using mail.known
  · intro t x has j inside
    rw [owner, (within j inside).2, number]
    rw [taken] at has
    exact mail.first t x has j (within j inside).1

theorem Mail.take (mail : Mail w use) {hdr : Int} {n : Nat} {m : CanMsg} (isMail : w.arrived[n]? = some m)
    (kind : hdr = -1 ∨ m.hdrIndex = hdr) (later : ∀ x ∈ w.taken t, x.1 = hdr → x.2 < n)
    (first : ∀ j ∈ use, Asked hdr (w.dev.owner j) → n < w.number j) :
    Mail { w with taken := update w.taken t (w.taken t ++ [(hdr, n)]) } use := by
  refine ⟨mail.arrival, mail.mail, mail.sorts, mail.dropped, fun u => ?_, fun u x has => ?_, fun u x has => ?_⟩
  · by_cases same : u = t
    · subst same
      simp only [update_self]
      refine List.pairwise_append.mpr ⟨mail.order u, List.pairwise_singleton _ _, fun x has y isNew alike => ?_⟩
      cases List.mem_singleton.mp isNew
      exact later x has alike
    · simpa [same] using mail.order u
  · by_cases same : u = t
    · subst same
      simp only [update_self] at has
      rcases List.mem_append.mp has with has | isNew
      · exact mail.known u x has
      · cases List.mem_singleton.mp isNew
        exact ⟨m, isMail, kind⟩
    · exact mail.known u x (by simpa [same] using has)
  · by_cases same : u = t
    · subst same
      simp only [update_self] at has
      rcases List.mem_append.mp has with has | isNew
      · exact mail.first u x has
      · cases List.mem_singleton.mp isNew
        exact first
    · exact mail.first u x (by simpa [same] using has)

theorem Mail.renew (mail : Mail w use) (t : Nat) : Mail { w with taken := update w.taken t [] } use := by
  have none : ∀ u x, x ∈ update w.taken t [] u → x ∈ w.taken u := by
    intro u x has
    by_cases same : u = t
    · subst same
      simp at has
    · simpa [same] using has
  refine ⟨mail.arrival, mail.mail, mail.sorts, mail.dropped, fun u => ?_, fun u x has => mail.known u x (none u x has),
    fun u x has => mail.first u x (none u x has)⟩
  by_cases same : u = t
  · subst same
    simp
  · simpa [same] using mail.order u

theorem Mail.drop (mail : Mail w use) {n : Nat} (known : n < w.arrived.length) (oldest : ∀ j ∈ use, n < w.number j) :
    Mail { w with dropped := (n, 0) :: w.dropped } use := by
  refine ⟨mail.arrival, mail.mail, mail.sorts, fun x has => ?_, mail.order, mail.known, mail.first⟩
  rcases List.mem_cons.mp has with rfl | has
  · exact ⟨rfl, known, oldest⟩
  · exact mail.dropped x has

theorem Mail.put (mail : Mail w use) (out : i ∉ use) {m : CanMsg} {o : Option Nat} (here : w.dev.data i = m)
    (owner : w'.dev.owner = update w.dev.owner i o) (sort : ∀ k, o = some k → m.hdrIndex = k)
    (data : w'.dev.data = w.dev.data) (arrived : w'.arrived = w.arrived ++ [m])
    (number : w'.number = update w.number i w.arrived.length) (taken : w'.taken = w.taken)
    (dropped : w'.dropped = w.dropped) : Mail w' (use ++ [i]) := by
  have old : ∀ j ∈ use, j ≠ i := by
    rintro j inside rfl
    exact out inside
  have earlier : ∀ j ∈ use, w.number j < w.arrived.length := by
    intro j inside
    obtain ⟨short, _⟩ := List.getElem?_eq_some_iff.mp (mail.mail j inside)
    exact short
  have seen : ∀ (n : Nat) (m' : CanMsg), w.arrived[n]? = some m' → (w.arrived ++ [m])[n]? = some m' := by
    intro n m' isMail
    obtain ⟨short, _⟩ := List.getElem?_eq_some_iff.mp isMail
    rw [List.getElem?_append_left short, isMail]
  have numbered : ∀ j ∈ use, w'.number j = w.number j := by
    intro j inside
    rw [number, update_of_ne (old j inside)]
  have last : w'.number i = w.arrived.length := by rw [number, update_self]
  refine ⟨?_, fun j inside => ?_, fun j inside k isK => ?_, fun x has => ?_, ?_, fun t x has => ?_, fun t x has j inside asked => ?_⟩
  · refine List.pairwise_append.mpr ⟨?_, List.pairwise_singleton _ _, fun a has b isNew => ?_⟩
    · refine mail.arrival.imp_of_mem fun {a b} first second before => ?_
      rwa [numbered a first, numbered b second]
    · cases List.mem_singleton.mp isNew
      rw [numbered a has, last]
      exact earlier a has
  · rw [arrived, data]
    rcases List.mem_append.mp inside with inside | isNew
    · rw [numbered j inside]
      exact seen _ _ (mail.mail j inside)
    · cases List.mem_singleton.mp isNew
      rw [last, List.getElem?_concat_length, here]
  · rw [data]
    rw [owner] at isK
    rcases List.mem_append.mp inside with inside | isNew
    · rw [update_of_ne (old j inside)] at isK
      exact mail.sorts j inside k isK
    · cases List.mem_singleton.mp isNew
      rw [update_self] at isK
      rw [here]
      exact sort k isK
  · rw [dropped] at has
    obtain ⟨full, known, oldest⟩ := mail.dropped x has
    refine ⟨full, ?_, fun j inside => ?_⟩
    · rw [arrived, List.length_append]
      omega
    · rcases List.mem_append.mp inside with inside | isNew
      · rw [numbered j inside]
        exact oldest j inside
      · cases List.mem_singleton.mp isNew
        rwa [last]
  · simpa only [taken] using mail.order
  · rw [taken] at has
    obtain ⟨m', isMail, kind⟩ := mail.known t x has
    rw [arrived]
    exact ⟨m', seen _ _ isMail, kind⟩
  · rw [taken] at has
    rw [owner] at asked
    rcases List.mem_append.mp inside with inside | isNew
    · rw [update_of_ne (old j inside)] at asked
      rw [numbered j inside]
      exact mail.first t x has j inside asked
    · cases List.mem_singleton.mp isNew
      rw [last]
      obtain ⟨m', isMail, _⟩ := mail.known t x has
      obtain ⟨short, _⟩ := List.getElem?_eq_some_iff.mp isMail
      exact short

/-! ## Calls -/

theorem Reads.keep {r : CanRead} {next : List CanMsg} (reads : Reads c w t r next) (taken : w'.taken t = w.taken t)
    (known : ∀ x ∈ w.taken t, w'.arrived[x.2]? = w.arrived[x.2]?) : Reads c w' t r next := by
  refine ⟨?_, reads.inside⟩
  rw [taken, ← reads.copied]
  exact List.map_congr_left known

theorem CanProc.reading_congr {d d' : CanDevice} {p : CanProc} (same : ∀ i ∈ p.held, d'.data i = d.data i) :
    p.reading d' = p.reading d := by
  cases p with
  | readCopy r i => simp [CanProc.reading, same i List.mem_cons_self]
  | _ => rfl

theorem CanProc.ended_held {p : CanProc} (ended : p.ended = true) : p.held = [] := by
  cases p <;> first | rfl | cases ended

theorem CanInv.calls {v : CanWorld} {p : CanProc} (inv : CanInv c w free use) (procs : v.procs = update w.procs t p)
    (data : ∀ u, u ≠ t → ∀ i ∈ (w.procs u).held, v.dev.data i = w.dev.data i)
    (taken : ∀ u, u ≠ t → v.taken u = w.taken u) (arrived : w.arrived <+: v.arrived)
    (own : ∀ r next, p.reading v.dev = some (r, next) → Reads c v t r next)
    (ownPut : ∀ i m, p = .rxPut i m → v.dev.data i = m) :
    (∀ u r next, (v.procs u).reading v.dev = some (r, next) → Reads c v u r next) ∧
      ∀ u i m, v.procs u = .rxPut i m → v.dev.data i = m := by
  rw [procs]
  constructor
  · intro u r next reads
    by_cases same : u = t
    · subst same
      rw [update_self] at reads
      exact own r next reads
    · rw [update_of_ne same, CanProc.reading_congr (data u same)] at reads
      refine (inv.reads u r next reads).keep (taken u same) fun x has => ?_
      obtain ⟨m, isMail, _⟩ := inv.mail.known u x has
      obtain ⟨more, isMore⟩ := arrived
      obtain ⟨short, _⟩ := List.getElem?_eq_some_iff.mp isMail
      rw [← isMore, List.getElem?_append_left short]
  · intro u i m isPut
    by_cases same : u = t
    · subst same
      rw [update_self] at isPut
      exact ownPut i m isPut
    · rw [update_of_ne same] at isPut
      rw [data u same i (by rw [isPut]; exact List.mem_cons_self)]
      exact inv.puts u i m isPut

section custody
variable {procs : Nat → CanProc} {p : CanProc} {all shelf shelf' : List Nat}

section
variable (boxes : Custody all shelf fun u => (procs u).held)
include boxes

theorem custody_same (same : p.held = (procs t).held) :
    Custody all shelf fun u => (update procs t p u).held := by
  refine boxes.same fun u => ?_
  by_cases own : u = t
  · subst own
    rw [update_self, same]
  · rw [update_of_ne own]

theorem custody_take (perm : shelf.Perm (i :: shelf'))
    (empty : (procs t).held = []) (holds : p.held = [i]) : Custody all shelf' fun u => (update procs t p u).held := by
  refine (boxes.freePerm perm.symm).take (t := t) ?_ fun u other => ?_
  · rw [update_self, holds, empty]
  · rw [update_of_ne other]

theorem custody_give (perm : shelf'.Perm (i :: shelf))
    (had : (procs t).held = [i]) (empty : p.held = []) : Custody all shelf' fun u => (update procs t p u).held := by
  have given : Custody all (i :: shelf) fun u => (update procs t p u).held := by
    refine boxes.give (t := t) ?_ fun u other => ?_
    · rw [update_self, had, empty]
    · rw [update_of_ne other]
  exact given.freePerm perm

end

end custody

section
variable (inv : CanInv c w free use)
include inv

theorem CanInv.interrupt {tmpmsg : CanMsg} {lost : Bool} (ended : (w.procs t).ended = true)
    (taken : w.interrupt t tmpmsg lost = some w') : ∃ free use, CanInv c w' free use := by
  have idle := CanProc.ended_held ended
  have counted : ∃ dev : CanDevice, dev = (if lost then { w.dev with dropedrcvpkg := w.dev.dropedrcvpkg + 1 } else w.dev) ∧
      Shelved dev free use ∧ dev.data = w.dev.data ∧ dev.owner = w.dev.owner ∧ dev.freenumbers = w.dev.freenumbers := by
    cases lost with
    | false => exact ⟨_, rfl, inv.shelved, rfl, rfl, rfl⟩
    | true => exact ⟨_, rfl, inv.shelved.counts _ _ _, rfl, rfl, rfl⟩
  obtain ⟨dev, isDev, shelved, data, owner, freenumbers⟩ := counted
  unfold CanWorld.interrupt at taken
  rw [← isDev] at taken
  cases took : dev.rxTake with
  | none => simp [took] at taken
  | some result =>
    obtain ⟨dev', out⟩ := result
    obtain ⟨sameData, cases'⟩ := shelved.rxTake took
    have mine : ∀ w'' : CanWorld, w''.dev.data = w.dev.data → ∀ u, u ≠ t → ∀ i ∈ (w.procs u).held, w''.dev.data i = w.dev.data i :=
      fun w'' same u _ i _ => congrFun same i
    rcases cases' with ⟨i, rest, rfl, rfl, after, number, own⟩ | ⟨rfl, number, ⟨i, rest, rfl, rfl, after, own⟩ | ⟨rfl, rfl, after, own⟩⟩
    · have full : dev.isEmpty .freelist = false := by simpa using shelved.isEmpty_free
      simp only [took, full, Bool.false_eq_true, if_false, Option.some.injEq] at taken
      subst taken
      have calls := inv.calls (v := { w.become t (.rxCopy i tmpmsg) with dev := dev' }) (t := t) rfl
        (mine _ (sameData.trans data)) (fun _ _ => rfl) List.prefix_rfl (by simp [CanProc.reading]) (by simp)
      refine ⟨rest, use, after, ?_, ?_, ?_, calls.1, calls.2⟩
      · exact custody_take inv.boxes (List.Perm.refl _) idle rfl
      · change dev'.freenumbers = _
        rw [number, freenumbers, inv.freenumbers]
        rfl
      · exact inv.mail.keep (own.trans owner) (fun i _ => congrFun (sameData.trans data) i) rfl rfl rfl rfl
    · have empty : dev.isEmpty .freelist = true := shelved.isEmpty_free.mpr rfl
      have zero : dev.freenumbers = 0 := freenumbers.trans inv.freenumbers
      simp only [took, empty, if_true, zero, Option.some.injEq] at taken
      subst taken
      have fresh : i ∉ [] ++ rest := (List.nodup_cons.mp shelved.nodup).1
      have mail : Mail { w.become t (.rxCopy i tmpmsg) with dev := dev' } ([] ++ rest) :=
        Mail.leave [] inv.mail fresh (own.trans (by rw [owner])) (sameData.trans data) rfl rfl rfl rfl
      obtain ⟨short, _⟩ := List.getElem?_eq_some_iff.mp (inv.mail.mail i List.mem_cons_self)
      have calls := inv.calls (v := { w.become t (.rxCopy i tmpmsg) with
          dev := dev', dropped := (w.number i, 0) :: w.dropped }) (t := t) rfl
        (mine _ (sameData.trans data)) (fun _ _ => rfl) List.prefix_rfl (by simp [CanProc.reading]) (by simp)
      refine ⟨[], rest, after, ?_, ?_, ?_, calls.1, calls.2⟩
      · exact custody_take inv.boxes (List.Perm.refl _) idle rfl
      · exact (number.trans freenumbers).trans inv.freenumbers
      · exact mail.drop short (List.pairwise_cons.mp inv.mail.arrival).1
    · simp only [took, Option.some.injEq] at taken
      subst taken
      have reads : ∀ u, (w.procs u).reading dev' = (w.procs u).reading w.dev :=
        fun u => CanProc.reading_congr fun i _ => congrFun (sameData.trans data) i
      refine ⟨[], [], after, inv.boxes, (number.trans freenumbers).trans inv.freenumbers, ?_, ?_, ?_⟩
      · exact inv.mail.keep (own.trans owner) (fun i _ => congrFun (sameData.trans data) i) rfl rfl rfl rfl
      · intro u r next isRead
        rw [reads u] at isRead
        exact (inv.reads u r next isRead).keep rfl fun _ _ => rfl
      · intro u i m isPut
        exact (congrFun (sameData.trans data) i).trans (inv.puts u i m isPut)

theorem CanInv.turn {p : CanProc} (held : p.held = (w.procs t).held)
    (own : ∀ r next, p.reading w.dev = some (r, next) → Reads c w t r next)
    (ownPut : ∀ i m, p = .rxPut i m → w.dev.data i = m) : CanInv c (w.become t p) free use := by
  have calls := inv.calls (v := w.become t p) (t := t) (p := p) rfl (fun _ _ _ _ => rfl) (fun _ _ => rfl) List.prefix_rfl
    (fun r next isRead => (own r next isRead).keep rfl fun _ _ => rfl) ownPut
  exact ⟨inv.shelved, custody_same inv.boxes held, inv.freenumbers, inv.mail.keep rfl (fun _ _ => rfl) rfl rfl rfl rfl,
    calls.1, calls.2⟩

theorem CanInv.read (ended : (w.procs t).ended = true) (size : UInt32) (hdrIndex : Nat → Int) :
    CanInv c { w.become t (.read ⟨size, size, hdrIndex, []⟩) with taken := update w.taken t [] } free use := by
  have calls := inv.calls (v := { w.become t (.read ⟨size, size, hdrIndex, []⟩) with
      taken := update w.taken t [] }) (t := t) rfl (fun _ _ _ _ => rfl)
    (fun u other => update_of_ne other _ _) List.prefix_rfl (fun r next isRead => ?_) (by simp)
  · refine ⟨inv.shelved, custody_same inv.boxes ?_, inv.freenumbers, ?_, calls.1, calls.2⟩
    · exact (CanProc.ended_held ended).symm
    · exact (inv.mail.renew t).keep rfl (fun _ _ => rfl) rfl rfl rfl rfl
  · cases isRead
    exact ⟨by simp, by simp⟩

theorem CanInv.rxCopy {tmpmsg : CanMsg} (isAt : w.procs t = .rxCopy i tmpmsg) :
    CanInv c { w.become t (.rxPut i tmpmsg) with dev := { w.dev with data := update w.dev.data i tmpmsg } }
      free use := by
  have mine : i ∈ (w.procs t).held := by rw [isAt]; exact List.mem_cons_self
  have out : i ∉ free ++ use := inv.boxes.notFree mine
  have others : ∀ u, u ≠ t → ∀ j ∈ (w.procs u).held, update w.dev.data i tmpmsg j = w.dev.data j := by
    intro u other j inside
    have differ : j ≠ i := by
      rintro rfl
      exact other (inv.boxes.apart inside mine)
    exact update_of_ne differ _ _
  have calls := inv.calls (v := { w.become t (.rxPut i tmpmsg) with
      dev := { w.dev with data := update w.dev.data i tmpmsg } }) (t := t) rfl others (fun _ _ => rfl)
    List.prefix_rfl (by simp [CanProc.reading]) (fun j m isPut => ?_)
  · refine ⟨⟨inv.shelved.rings, inv.shelved.nodup, inv.shelved.owners, inv.shelved.msgs⟩, custody_same inv.boxes ?_,
      inv.freenumbers, ?_, calls.1, calls.2⟩
    · rw [isAt]
      rfl
    · refine inv.mail.keep rfl (fun j inside => ?_) rfl rfl rfl rfl
      have differ : j ≠ i := by
        rintro rfl
        exact out (List.mem_append_right _ inside)
      exact update_of_ne differ _ _
  · cases isPut
    exact update_self ..

theorem CanInv.rxPut {tmpmsg : CanMsg} {dev : CanDevice} (isAt : w.procs t = .rxPut i tmpmsg)
    (put : w.dev.rxPut c i tmpmsg = some dev) :
    CanInv c { w.become t .idle with
      dev, arrived := w.arrived ++ [tmpmsg], number := update w.number i w.arrived.length } free (use ++ [i]) := by
  have mine : i ∈ (w.procs t).held := by rw [isAt]; exact List.mem_cons_self
  have out : i ∉ free ++ use := inv.boxes.notFree mine
  obtain ⟨shelved, data, freenumbers, o, owner, sort⟩ := inv.shelved.rxPut out put
  have calls := inv.calls (v := { w.become t .idle with
      dev, arrived := w.arrived ++ [tmpmsg], number := update w.number i w.arrived.length }) (t := t) rfl
    (fun _ _ i _ => congrFun data i) (fun _ _ => rfl) (List.prefix_append _ _) (by simp [CanProc.reading]) (by simp)
  refine ⟨shelved, custody_give (i := i) inv.boxes ?_ ?_ rfl, freenumbers.trans inv.freenumbers, ?_, calls.1, calls.2⟩
  · rw [← List.append_assoc]
    exact List.perm_append_singleton i _
  · rw [isAt]
    rfl
  · exact inv.mail.put (fun inside => out (List.mem_append_right _ inside)) (inv.puts t i tmpmsg isAt) owner sort data rfl
      rfl rfl rfl

theorem CanInv.readTurn {r : CanRead} (isAt : w.procs t = .read r)
    (turned : w.readTurn c t r = some w') : ∃ free use, CanInv c w' free use := by
  have reads : Reads c w t r [] := inv.reads t r [] (by rw [isAt]; rfl)
  unfold CanWorld.readTurn at turned
  split at turned
  case isTrue =>
    cases turned
    refine ⟨free, use, inv.turn (by rw [isAt]; rfl) (fun r' next isRead => ?_) (by simp)⟩
    cases isRead
    exact reads
  case isFalse =>
    cases took : w.dev.readTake c (r.hdrIndex r.data.length) with
    | none => simp [took] at turned
    | some result =>
      obtain ⟨dev, out⟩ := result
      rcases inv.shelved.readTake took with ⟨rfl, rfl⟩ | ⟨xs, i, ys, rfl, rfl, asked, before, shelved, data, number, owner⟩
      · simp only [took, Option.some.injEq] at turned
        subst turned
        refine ⟨free, use, inv.turn (by rw [isAt]; rfl) (fun r' next isRead => ?_) (by simp)⟩
        cases isRead
        exact reads
      · simp only [took, Option.some.injEq] at turned
        subst turned
        have here : i ∈ xs ++ i :: ys := by simp
        have out : i ∉ xs ++ ys := by
          have perm : (free ++ (xs ++ i :: ys)).Perm (i :: (free ++ (xs ++ ys))) :=
            (List.perm_middle.append_left free).trans List.perm_middle
          exact fun inside =>
            (List.nodup_cons.mp (perm.nodup_iff.mp inv.shelved.nodup)).1 (List.mem_append_right _ inside)
        have isMail := inv.mail.mail i here
        have left : Mail { w.become t (.readCopy r i) with dev } (xs ++ ys) :=
          Mail.leave _ inv.mail out owner data rfl rfl rfl rfl
        have taken : Mail { w.become t (.readCopy r i) with
            dev, taken := update w.taken t (w.taken t ++ [(r.hdrIndex r.data.length, w.number i)]) } (xs ++ ys) := by
          refine left.take isMail ?_ (fun x has alike => ?_) fun j inside asks => ?_
          · rcases asked with any | ⟨k, isK, same⟩
            · exact Or.inl any
            · exact Or.inr ((inv.mail.sorts i here k isK).trans same.symm)
          · exact inv.mail.first t x has i here (alike ▸ asked)
          · have asks : Asked (r.hdrIndex r.data.length) (dev.owner j) := asks
            rw [owner, update_of_ne (by rintro rfl; exact out inside)] at asks
            rcases List.mem_append.mp inside with earlier | later
            · exact absurd asks (before j earlier)
            · exact (List.pairwise_cons.mp (List.pairwise_append.mp inv.mail.arrival).2.1).1 j later
        have calls := inv.calls (v := { w.become t (.readCopy r i) with
            dev, taken := update w.taken t (w.taken t ++ [(r.hdrIndex r.data.length, w.number i)]) }) (t := t) rfl
          (fun _ _ i _ => congrFun data i) (fun u other => update_of_ne other _ _) List.prefix_rfl
          (fun r' next isRead => ?_) (by simp)
        · refine ⟨free, xs ++ ys, shelved, custody_take inv.boxes ?_ (by rw [isAt]; rfl) rfl,
            number.trans inv.freenumbers, taken, calls.1, calls.2⟩
          exact (List.perm_middle.append_left free).trans List.perm_middle
        · cases isRead
          have copied : (w.taken t).map (fun x => w.arrived[x.2]?) = r.data.map some := by simpa using reads.copied
          refine ⟨?_, reads.inside⟩
          simp [CanWorld.become, copied, isMail, data]

theorem CanInv.readCopy {r : CanRead} (isAt : w.procs t = .readCopy r i)
    (room : (r.data.length + 1) * c.msgSize.toNat ≤ r.size.toNat) :
    CanInv c (w.become t (.readGive { r with data := r.data ++ [w.dev.data i] } i)) free use := by
  have reads : Reads c w t r [w.dev.data i] := inv.reads t r _ (by rw [isAt]; rfl)
  refine inv.turn (by rw [isAt]; rfl) (fun r' next isRead => ?_) (by simp)
  cases isRead
  exact ⟨by simpa using reads.copied, by simpa using room⟩

theorem CanInv.readGive {r : CanRead} {dev : CanDevice} (isAt : w.procs t = .readGive r i)
    (given : w.dev.readGive c i = some dev) :
    CanInv c { w.become t (.read { r with msgs := r.msgs - c.msgSize }) with dev } (free ++ [i]) use := by
  have mine : i ∈ (w.procs t).held := by rw [isAt]; exact List.mem_cons_self
  have reads : Reads c w t r [] := inv.reads t r _ (by rw [isAt]; rfl)
  obtain ⟨shelved, data, freenumbers, owner⟩ := inv.shelved.readGive (inv.boxes.notFree mine) given
  have calls := inv.calls (v := { w.become t (.read { r with msgs := r.msgs - c.msgSize }) with dev }) (t := t) rfl
    (fun _ _ i _ => congrFun data i) (fun _ _ => rfl) List.prefix_rfl (fun r' next isRead => ?_) (by simp)
  · refine ⟨shelved, custody_give (i := i) inv.boxes ?_ (by rw [isAt]; rfl) rfl, ?_, ?_, calls.1, calls.2⟩
    · rw [List.append_assoc, List.singleton_append]
      exact List.perm_middle
    · rw [List.length_append, List.length_singleton, ← inv.freenumbers]
      exact freenumbers
    · exact inv.mail.keep owner (fun i _ => congrFun data i) rfl rfl rfl rfl
  · cases isRead
    exact ⟨reads.copied, reads.inside⟩

theorem CanInv.filter {dev : CanDevice} {p : CanProc} (shelved : Shelved dev free use)
    (data : dev.data = w.dev.data) (owner : dev.owner = w.dev.owner) (freenumbers : dev.freenumbers = w.dev.freenumbers)
    (holds : p.held = (w.procs t).held) (noRead : p.reading dev = none) (noPut : ∀ i m, p ≠ .rxPut i m) :
    CanInv c { w.become t p with dev } free use := by
  have calls := inv.calls (v := { w.become t p with dev }) (t := t) rfl (fun _ _ i _ => congrFun data i) (fun _ _ => rfl)
    List.prefix_rfl (fun r next isRead => by simp [noRead] at isRead) (fun i m isPut => absurd isPut (noPut i m))
  exact ⟨shelved, custody_same inv.boxes holds, freenumbers.trans inv.freenumbers,
    inv.mail.keep owner (fun i _ => congrFun data i) rfl rfl rfl rfl, calls.1, calls.2⟩

theorem CanInv.filterItem {actived : Bool} {bank : Int} {items : List Int}
    (isAt : w.procs t = .setFilter actived (bank :: items)) (room : Room c w (.go t)) :
    CanInv c (w.filterItem c t actived bank items) free use := by
  have holds : (w.procs t).held = [] := by rw [isAt]; rfl
  unfold CanWorld.filterItem
  split
  case isTrue => exact inv.turn holds.symm (by simp [CanProc.reading]) (by simp)
  case isFalse known =>
    rw [not_or, ge_iff_le, Int.not_le] at known
    split
    case isTrue =>
      split
      · exact inv.turn holds.symm (by simp [CanProc.reading]) (by simp)
      · exact inv.turn holds.symm (by simp [CanProc.reading]) (by simp)
    case isFalse off =>
      have isOff : actived = false := by simpa using off
      subst isOff
      simp only [Room, isAt] at room
      have same : (w.dev.disconnect bank.toNat).data = w.dev.data ∧ (w.dev.disconnect bank.toNat).owner = w.dev.owner ∧
          (w.dev.disconnect bank.toNat).freenumbers = w.dev.freenumbers := by
        unfold CanDevice.disconnect
        split <;> exact ⟨rfl, rfl, rfl⟩
      exact inv.filter (inv.shelved.disconnect (room (Int.not_lt.mp known.2) known.1)) same.1 same.2.1 same.2.2 holds.symm rfl (by simp)

theorem CanInv.step {a : CanAction} (room : Room c w a) (taken : w.step c a = some w') :
    ∃ free use, CanInv c w' free use := by
  cases a with
  | interrupt t tmpmsg lost =>
    simp only [CanWorld.step] at taken
    split at taken
    case isTrue ended => exact inv.interrupt ended taken
    case isFalse => cases taken
  | read t size hdrIndex =>
    simp only [CanWorld.step] at taken
    split at taken
    case isTrue ended =>
      cases taken
      exact ⟨free, use, inv.read ended size hdrIndex⟩
    case isFalse => cases taken
  | setFilter t actived items =>
    simp only [CanWorld.step] at taken
    split at taken
    case isTrue ended =>
      cases taken
      exact ⟨free, use, inv.turn (CanProc.ended_held ended).symm (by simp [CanProc.reading]) (by simp)⟩
    case isFalse => cases taken
  | go t =>
    simp only [CanWorld.step] at taken
    unfold CanWorld.go at taken
    split at taken
    case h_1 => cases taken
    case h_2 => cases taken
    case h_3 listmsg tmpmsg isAt =>
      cases taken
      exact ⟨free, use, inv.rxCopy isAt⟩
    case h_4 listmsg tmpmsg isAt =>
      obtain ⟨dev, put, rfl⟩ := Option.map_eq_some_iff.mp taken
      exact ⟨free, _, inv.rxPut isAt put⟩
    case h_5 r isAt => exact inv.readTurn isAt taken
    case h_6 r listmsg isAt =>
      cases taken
      simp only [Room, isAt] at room
      exact ⟨free, use, inv.readCopy isAt room⟩
    case h_7 r listmsg isAt =>
      obtain ⟨dev, given, rfl⟩ := Option.map_eq_some_iff.mp taken
      exact ⟨_, use, inv.readGive isAt given⟩
    case h_8 isAt =>
      cases taken
      exact ⟨free, use, inv.turn (by rw [isAt]; rfl) (by simp [CanProc.reading]) (by simp)⟩
    case h_9 actived bank items isAt =>
      cases taken
      exact ⟨free, use, inv.filterItem isAt room⟩
    case h_10 bank items isAt =>
      cases taken
      simp only [Room, isAt] at room
      exact ⟨free, use, inv.filter (inv.shelved.connect room) rfl rfl rfl (by rw [isAt]; rfl) rfl (by simp)⟩

end

/-! ## Every run -/

theorem use_unique {l : Links CanNode} {use' : List Nat} (first : Circle l.next l.prev .uselist (use.map .list))
    (second : Circle l.next l.prev .uselist (use'.map .list)) : use' = use := by
  have injective : Function.Injective CanNode.list := fun _ _ same => CanNode.list.inj same
  exact injective.list_map (second.unique first)

theorem Holds.isEmpty (inv : CanInv c w free use) (holds : Sound c w')
    (uselist : Circle w'.dev.links.next w'.dev.links.prev .uselist (use.map .list)) (owner : w'.dev.owner = w.dev.owner)
    (msgs : (w'.dev.hdr k).msgs = 0) : w.dev.isEmpty (.hdr k) = true := by
  obtain ⟨free', use', holds⟩ := holds
  have same : use' = use := use_unique uselist holds.uselist
  have counted := (holds.filters k).2
  rw [msgs, owner, same] at counted
  exact inv.shelved.isEmpty_hdr.mpr (List.length_eq_zero_iff.mp counted.symm)

theorem CanInv.room (inv : CanInv c w free use) {a : CanAction} (taken : w.step c a = some w') (sound : Sound c w') :
    Room c w a := by
  cases a with
  | interrupt t tmpmsg lost => trivial
  | read t size hdrIndex => trivial
  | setFilter t actived items => trivial
  | go t =>
    simp only [Room]
    split
    case h_1 r listmsg isAt =>
      simp only [CanWorld.step, CanWorld.go, isAt, Option.some.injEq] at taken
      subst taken
      obtain ⟨free', use', holds⟩ := sound
      have reads := holds.reads t _ [] (by simp [CanWorld.become]; rfl)
      simpa using reads.inside
    case h_2 bank items isAt =>
      simp only [CanWorld.step, CanWorld.go, isAt, Option.some.injEq] at taken
      subst taken
      have before := inv.shelved.rings.circle .uselist _ rfl
      refine Holds.isEmpty inv sound (before.congr fun m inside => ?_) rfl (by simp [CanDevice.connect])
      have differ : m ≠ .hdr bank := by
        rintro rfl
        simp at inside
      simp [CanDevice.connect, Links.init, differ]
    case h_3 bank items isAt =>
      intro nonneg known connected
      simp only [CanWorld.step, CanWorld.go, isAt, Option.some.injEq] at taken
      subst taken
      by_contra full
      have notNil : owned w.dev.owner use bank.toNat ≠ [] := fun isNil => full (inv.shelved.isEmpty_hdr.mpr isNil)
      obtain ⟨i, rest, own⟩ := List.exists_cons_of_ne_nil notNil
      have here : shelves free use w.dev.owner (.hdr bank.toNat) = some ([] ++ .hdrlist i :: rest.map .hdrlist) := by
        simp [shelves, own]
      have first : w.dev.links.next (.hdr bank.toNat) = .hdrlist i := inv.shelved.rings.first here
      have notBad : ¬(bank ≥ c.maxhdr ∨ bank < 0) := by omega
      have isNext : w.filterItem c t false bank items =
          { w.become t (.setFilter false items) with dev := { w.dev with
            hdr := update w.dev.hdr bank.toNat { connected := false, msgs := 0 }
            links := w.dev.links.remove (.hdrlist i) } } := by
        simp only [CanWorld.filterItem, if_neg notBad, CanDevice.disconnect, connected, full, first]
        rfl
      rw [isNext] at sound
      have uselist : Circle (w.dev.links.remove (.hdrlist i)).next (w.dev.links.remove (.hdrlist i)).prev .uselist
          (use.map .list) := (inv.shelved.rings.remove here).circle .uselist _ (by simp [shelves])
      exact full (Holds.isEmpty inv sound uselist rfl (by simp))
    case h_4 => trivial

theorem canOpen_rings (n : Nat) : Rings (canOpenLinks n) (shelves (List.range n) [] fun _ => none) := by
  induction n with
  | zero =>
    refine ⟨fun hub nodes listed => ?_, fun hub nodes other others m listed listed' inside inside' => ?_⟩
    · have isNil : nodes = [] := by cases hub <;> simpa [shelves, owned] using listed.symm
      subst isNil
      exact Circle.alone _ _ ⟨rfl, rfl⟩
    · have isNil : nodes = [] := by cases hub <;> simpa [shelves, owned] using listed.symm
      have isNil' : others = [] := by cases other <;> simpa [shelves, owned] using listed'.symm
      subst isNil isNil'
      exact (List.mem_singleton.mp inside).symm.trans (List.mem_singleton.mp inside')
  | succ n ih =>
    unfold canOpenLinks at ih ⊢
    rw [List.range_succ, List.foldl_append]
    exact rings_give ih (by simp)

theorem CanInv.start (c : CanConfigure) : CanInv c (canStart c) (List.range c.msgboxsz) [] where
  shelved := ⟨canOpen_rings c.msgboxsz, by simpa using List.nodup_range, fun _ _ => rfl, fun _ => rfl⟩
  boxes := by
    rw [List.append_nil]
    exact Custody.start List.nodup_range
  freenumbers := (List.length_range).symm
  mail := ⟨List.Pairwise.nil, nofun, nofun, nofun, fun _ => List.Pairwise.nil, fun _ => nofun, fun _ => nofun⟩
  reads _ _ _ isRead := nomatch isRead
  puts _ _ _ isPut := nomatch isPut

def CanWorld.Inv (c : CanConfigure) (w : CanWorld) : Prop := ∃ free use, CanInv c w free use

/-- The boxes stay where they belong, and reads give what arrived, just if each message copied fits its buffer and no
filter is connected or disconnected while it has a box. -/
theorem can_boxes (c : CanConfigure) (actions : List CanAction) :
    Throughout (fun w a w' => w.step c a = some w') (canStart c) actions (Sound c) ↔
      EachStep (fun w a w' => w.step c a = some w') (canStart c) actions (Room c) := by
  have start : (canStart c).Inv c := ⟨_, _, CanInv.start c⟩
  refine throughout_iff_eachStep (fun w inv => ?_) (fun w a w' inv room taken => ?_) (fun w a w' inv taken sound => ?_) start
  · obtain ⟨free, use, inv⟩ := inv
    exact ⟨free, use, inv.holds⟩
  · obtain ⟨free, use, inv⟩ := inv
    exact inv.step room taken
  · obtain ⟨free, use, inv⟩ := inv
    exact inv.room taken sound

def oneFilter : CanConfigure := ⟨2, 1, 16⟩

def disconnectFull : List CanAction :=
  [.setFilter 0 true [0], .go 0, .go 0, .go 0, .interrupt 1 ⟨0, []⟩ false, .go 1, .go 1, .setFilter 0 false [0], .go 0]

def forgotten (w : CanWorld) : Bool :=
  (w.dev.hdr 0).msgs = 0 && w.dev.owner 0 = some 0 && w.dev.links.next .uselist = .list 0

theorem can_filter_forgets :
    ¬Throughout (fun w a w' => w.step oneFilter a = some w') (canStart oneFilter) disconnectFull (Sound oneFilter) := by
  intro sound
  cases last : disconnectFull.foldlM (CanWorld.step oneFilter) (canStart oneFilter) with
  | none =>
    have runs : (disconnectFull.foldlM (CanWorld.step oneFilter) (canStart oneFilter)).isSome = true := by decide +kernel
    simp [last] at runs
  | some w =>
    have looks : (disconnectFull.foldlM (CanWorld.step oneFilter) (canStart oneFilter)).any forgotten = true := by
      decide +kernel
    rw [last] at looks
    simp only [Option.any_some, forgotten, Bool.and_eq_true, decide_eq_true_eq] at looks
    obtain ⟨⟨zero, owner⟩, first⟩ := looks
    obtain ⟨free, use, holds⟩ := sound _ _ List.prefix_rfl (run_of_foldlM last)
    have counted := (holds.filters 0).2
    have oldest := holds.uselist.meet_hub.1
    rw [first] at oldest
    cases use with
    | nil => cases oldest
    | cons i rest =>
      cases oldest
      simp [zero, owned, owner] at counted

end RtThread.Can
