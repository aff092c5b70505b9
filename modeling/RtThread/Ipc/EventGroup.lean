import RtThread.Ipc.Event
import RtThread.Lib.FlagGroup
import RtThread.Lib.Transition

/-! Every run of an event is a run of a group of flags: a send judges all waiting receives against one
value and clears afterwards, and a receive gets the same whether it waited or not. -/

set_option autoImplicit false
namespace RtThread.Ipc
open Lib
open Function (update)

section
variable {T : Type} [DecidableEq T] {w w' : EventWorld T} {t : T}

def requestOf (set : UInt32) (option : UInt8) : FlagRequest :=
  ⟨set, option &&& rtEventFlagAnd != 0, option &&& rtEventFlagClear != 0⟩

def EventWorld.request (w : EventWorld T) (t : T) : FlagRequest := requestOf (w.eventSet t) (w.eventInfo t)

def EventNote.flags : EventNote T → FlagEvent T
  | .sent set => .send set
  | .received t set option recved => .receive t (requestOf set option) recved
  | .waits t set option => .wait t (requestOf set option)
  | .expired t => .leave t
  | .woken t recved => .taken t recved
  | .failed t _ => .refused t
  | .reset => .reset
  | .refused _ => .nothing

def EventWorld.hand (w : EventWorld T) (t : T) : EventWorld T :=
  { w with
    waits := (rtThreadResume w.waits t).setError t .ok
    eventSet := Function.update w.eventSet t (w.set &&& w.eventSet t) }

theorem eventScan_cons (w : EventWorld T) (clear : UInt32) (t : T) (rest : List T)
    (option : w.eventInfo t &&& rtEventFlagAnd ≠ 0 ∨ w.eventInfo t &&& rtEventFlagOr ≠ 0) :
    eventScan w clear (t :: rest) =
      if (w.request t).satisfied w.set then
        eventScan (w.hand t) (clear ||| (w.request t).cleared (w.set &&& w.eventSet t)) rest
      else eventScan w clear rest := by
  have clears : ∀ bits, bits = w.set &&& w.eventSet t →
      needClear (w.setEventSet t bits) t clear =
        clear ||| (w.request t).cleared (w.set &&& w.eventSet t) := by
    rintro bits rfl
    by_cases clearing : w.eventInfo t &&& rtEventFlagClear = 0
    · simp [needClear, EventWorld.request, requestOf, FlagRequest.cleared, EventWorld.setEventSet, clearing]
    · simp [needClear, EventWorld.request, requestOf, FlagRequest.cleared, EventWorld.setEventSet, clearing]
  rw [eventScan]
  by_cases every : w.eventInfo t &&& rtEventFlagAnd = 0
  · have some := option.resolve_left (not_not.mpr every)
    rw [if_neg (not_not.mpr every), if_pos some]
    have asks : (w.request t).satisfied w.set = (w.eventSet t &&& w.set != 0) := by
      simp [FlagRequest.satisfied, EventWorld.request, requestOf, every, UInt32.and_comm]
    by_cases got : w.eventSet t &&& w.set = 0
    · rw [if_neg (not_not.mpr got), if_neg (by simp [asks, got])]
    · have same : w.eventSet t &&& w.set = w.set &&& w.eventSet t := UInt32.and_comm ..
      rw [if_pos got, if_pos (by simp [asks, got])]
      simp only [clears _ same]
      rw [same]
      rfl
  · rw [if_pos every]
    have asks : (w.request t).satisfied w.set = (w.set &&& w.eventSet t == w.eventSet t) := by
      simp [FlagRequest.satisfied, EventWorld.request, requestOf, every]
    by_cases got : w.eventSet t &&& w.set = w.eventSet t
    · have whole : w.set &&& w.eventSet t = w.eventSet t := by rw [UInt32.and_comm, got]
      have kept : w.setEventSet t (w.eventSet t) = w := by
        simp [EventWorld.setEventSet]
      have cleared := clears (w.eventSet t) whole.symm
      have handed : w.hand t = w.wake t := by
        simp [EventWorld.hand, EventWorld.wake, whole]
      rw [kept] at cleared
      rw [if_pos got, if_pos (by simp [asks, whole]), cleared, handed]
    · rw [if_neg got, if_neg]
      rw [asks, UInt32.and_comm]
      simpa using got

/-- What the scan of `rest` leaves, with the threads of `before` already passed. -/
structure Scanned (w w' : EventWorld T) (before rest : List T) : Prop where
  sound : w'.waits.Sound
  set : w'.set = w.set
  flag : w'.flag = w.flag
  list : w'.waits.list () = before ++ rest.filter fun t => !(w.request t).satisfied w.set
  info : w'.eventInfo = w.eventInfo
  receiving : w'.receiving = w.receiving
  handed : ∀ t ∈ rest, (w.request t).satisfied w.set = true →
    (w'.waits.thread t).suspended = false ∧ (w'.waits.thread t).error = .ok ∧
      w'.eventSet t = w.set &&& w.eventSet t
  same : ∀ t, t ∉ rest ∨ (w.request t).satisfied w.set = false →
    w'.waits.thread t = w.waits.thread t ∧ w'.eventSet t = w.eventSet t

theorem hand_waits (sound : w.waits.Sound) (inside : t ∈ w.waits.list ()) :
    (w.hand t).waits = (w.waits.remove t).set t
      { w.waits.thread t with suspended := false, timer := false, error := .ok } := by
  have asleep := sound.linked () t inside
  simp [EventWorld.hand, rtThreadResume, asleep, Waits.setError, Waits.set, Waits.remove]

-- Induction on the rest of the list: `before` grows by the threads that stay.
theorem eventScan_scanned (sound : w.waits.Sound) (clear : UInt32) (before rest : List T)
    (list : w.waits.list () = before ++ rest)
    (options : ∀ t ∈ rest, w.eventInfo t &&& rtEventFlagAnd ≠ 0 ∨ w.eventInfo t &&& rtEventFlagOr ≠ 0) :
    ∃ w', eventScan w clear rest = (w', (rest.filter fun t => (w.request t).satisfied w.set).foldl
        (fun bits t => bits ||| (w.request t).cleared (w.set &&& w.eventSet t)) clear, true) ∧
      Scanned w w' before rest := by
  induction rest generalizing w clear before with
  | nil =>
    exact ⟨w, rfl, ⟨sound, rfl, rfl, list, rfl, rfl, fun t inside => absurd inside List.not_mem_nil,
      fun _ _ => ⟨rfl, rfl⟩⟩⟩
  | cons t rest ih =>
    have nodup := sound.nodup ()
    rw [list] at nodup
    have fresh : t ∉ rest := (List.nodup_cons.mp (List.nodup_append.mp nodup).2.1).1
    have notBefore : t ∉ before := fun inside =>
      (List.nodup_append.mp nodup).2.2 t inside t List.mem_cons_self rfl
    rw [eventScan_cons w clear t rest (options t List.mem_cons_self)]
    cases satisfied : (w.request t).satisfied w.set with
    | false =>
      obtain ⟨w', code, scanned⟩ := ih sound clear (before ++ [t]) (by simp [list])
        fun u inside => options u (List.mem_cons_of_mem t inside)
      refine ⟨w', ?_, ?_⟩
      · simp only [Bool.false_eq_true, if_false, List.filter_cons, satisfied]
        exact code
      · constructor
        · exact scanned.sound
        · exact scanned.set
        · exact scanned.flag
        · simpa [satisfied] using scanned.list
        · exact scanned.info
        · exact scanned.receiving
        · intro u inside got
          rcases List.mem_cons.mp inside with rfl | old
          · rw [satisfied] at got
            cases got
          · exact scanned.handed u old got
        · intro u outside
          apply scanned.same u
          rw [List.mem_cons, not_or] at outside
          exact outside.imp_left And.right
    | true =>
      have inside : t ∈ w.waits.list () := by simp [list]
      have waits := hand_waits sound inside
      have others : ∀ u, u ≠ t → (w.hand t).request u = w.request u := by
        intro u other
        simp [EventWorld.request, EventWorld.hand, other]
      have sound' : (w.hand t).waits.Sound := by
        rw [waits]
        exact sound.awaken t _ rfl
      have list' : (w.hand t).waits.list () = before ++ rest := by
        rw [waits, Waits.set_list]
        simp [Waits.remove, list, List.erase_append, notBefore]
      have rests : ∀ u ∈ rest, (w.hand t).request u = w.request u := fun u inside =>
        others u fun own => fresh (own ▸ inside)
      obtain ⟨w', code, scanned⟩ := ih sound'
        (clear ||| (w.request t).cleared (w.set &&& w.eventSet t)) before list'
        fun u inside => options u (List.mem_cons_of_mem t inside)
      have set : (w.hand t).set = w.set := rfl
      refine ⟨w', ?_, ?_⟩
      · simp only [if_true, List.filter_cons, satisfied, List.foldl_cons]
        rw [code, set]
        have filters : (rest.filter fun u => ((w.hand t).request u).satisfied w.set) =
            rest.filter fun u => (w.request u).satisfied w.set :=
          List.filter_congr fun u inside => by rw [rests u inside]
        rw [filters]
        congr 2
        apply List.foldl_ext
        intro bits u inside
        have other : u ≠ t := fun own => fresh (own ▸ (List.mem_filter.mp inside).1)
        rw [others u other]
        simp [EventWorld.hand, other]
      · constructor
        · exact scanned.sound
        · exact scanned.set
        · exact scanned.flag
        · rw [scanned.list, set]
          have filters : (rest.filter fun u => !((w.hand t).request u).satisfied w.set) =
              rest.filter fun u => !(w.request u).satisfied w.set :=
            List.filter_congr fun u inside => by rw [rests u inside]
          simp [filters, satisfied]
        · exact scanned.info
        · exact scanned.receiving
        · intro u inside got
          by_cases own : u = t
          · subst own
            obtain ⟨thread, bits⟩ := scanned.same u (Or.inl fresh)
            rw [thread, bits, waits, Waits.set_thread]
            exact ⟨rfl, rfl, by simp [EventWorld.hand]⟩
          · have old : u ∈ rest := (List.mem_cons.mp inside).resolve_left own
            have handed := scanned.handed u old (by rw [others u own]; exact got)
            simpa [EventWorld.hand, own] using handed
        · intro u outside
          have other : u ≠ t := by
            rintro rfl
            rcases outside with outside | missing
            · exact outside List.mem_cons_self
            · rw [satisfied] at missing
              cases missing
          rw [List.mem_cons, not_or, ← others u other] at outside
          obtain ⟨thread, bits⟩ := scanned.same u (outside.imp_left And.right)
          rw [thread, bits, waits, Waits.set_other _ t _ other]
          exact ⟨rfl, by simp [EventWorld.hand, other]⟩

structure Groups (w : EventWorld T) (g : FlagGroup T) : Prop where
  sound : w.waits.Sound
  value : g.value = w.set
  waiting : g.waiting.Perm ((w.waits.list ()).map fun t => (t, w.request t))
  received : ∀ t, g.received t =
    if w.receiving t = true ∧ (w.waits.thread t).suspended = false ∧ (w.waits.thread t).error = .ok then
      some (w.eventSet t) else none
  unsatisfied : ∀ t ∈ w.waits.list (), (w.request t).satisfied w.set = false
  calls : ∀ t ∈ w.waits.list (), w.receiving t = true
  options : ∀ t ∈ w.waits.list (),
    w.eventInfo t &&& rtEventFlagAnd ≠ 0 ∨ w.eventInfo t &&& rtEventFlagOr ≠ 0

variable {g : FlagGroup T}

theorem Groups.find_woken (now : Groups w g) (value : UInt32) (t : T) :
    ((g.woken value).find? fun m => m.1 == t) =
      if t ∈ w.waits.list () ∧ (w.request t).satisfied value = true then some (t, w.request t) else none := by
  have member : ∀ m, m ∈ g.woken value ↔
      m.1 ∈ w.waits.list () ∧ m.2 = w.request m.1 ∧ m.2.satisfied value = true := by
    intro m
    rw [FlagGroup.woken, List.mem_filter, now.waiting.mem_iff, List.mem_map]
    constructor
    · rintro ⟨⟨u, inside, rfl⟩, satisfied⟩
      exact ⟨inside, rfl, satisfied⟩
    · rintro ⟨inside, same, satisfied⟩
      exact ⟨⟨m.1, inside, by rw [← same]⟩, satisfied⟩
  split
  case isTrue woken =>
    cases found : (g.woken value).find? fun m => m.1 == t with
    | none =>
      have nobody := List.find?_eq_none.mp found (t, w.request t) ((member _).mpr ⟨woken.1, rfl, woken.2⟩)
      simp at nobody
    | some m =>
      have own : m.1 = t := by simpa using List.find?_some found
      obtain ⟨_, same, _⟩ := (member m).mp (List.mem_of_find?_eq_some found)
      rw [own] at same
      rw [← own, own, ← same, ← own]
  case isFalse asleep =>
    apply List.find?_eq_none.mpr
    intro m inside own
    obtain ⟨listed, same, satisfied⟩ := (member m).mp inside
    have own : m.1 = t := by simpa using own
    rw [same, own] at satisfied
    exact asleep ⟨own ▸ listed, satisfied⟩

omit [DecidableEq T] in
theorem Groups.clearedBy (now : Groups w g) (value : UInt32) :
    FlagGroup.clearedBy value (g.woken value) =
      ((w.waits.list ()).filter fun t => (w.request t).satisfied value).foldl
        (fun bits t => bits ||| (w.request t).cleared (value &&& w.eventSet t)) 0 := by
  have perm : (g.woken value).Perm
      (((w.waits.list ()).filter fun t => (w.request t).satisfied value).map fun t => (t, w.request t)) := by
    have filtered := now.waiting.filter fun m => m.2.satisfied value
    rwa [List.filter_map] at filtered
  have right : RightCommutative fun (bits : UInt32) (m : T × FlagRequest) =>
      bits ||| m.2.cleared (value &&& m.2.mask) :=
    ⟨fun bits m n => by rw [UInt32.or_assoc, UInt32.or_comm (m.2.cleared _), ← UInt32.or_assoc]⟩
  rw [FlagGroup.clearedBy, perm.foldl_eq, List.foldl_map]
  rfl

theorem clear_unless_zero (value bits : UInt32) :
    (if bits ≠ 0 then value &&& ~~~bits else value) = value &&& ~~~bits := by
  by_cases zero : bits = 0
  · simp [zero]
  · simp [zero]

theorem Groups.eventSend_eq (now : Groups w g) {set : UInt32} (nonzero : set ≠ 0) :
    ∃ mid, Scanned { w with set := w.set ||| set } mid [] (w.waits.list ()) ∧
      eventSend w set = ({ mid with
        set := (w.set ||| set) &&& ~~~(FlagGroup.clearedBy (w.set ||| set) (g.woken (w.set ||| set))) },
        .sent set) := by
  obtain ⟨mid, code, scanned⟩ := eventScan_scanned (w := { w with set := w.set ||| set }) now.sound 0 []
    (w.waits.list ()) rfl now.options
  have value : mid.set = w.set ||| set := scanned.set
  refine ⟨mid, scanned, ?_⟩
  simp only [eventSend, if_neg nonzero, code, clear_unless_zero]
  rw [now.clearedBy, value]
  rfl

theorem Groups.send (now : Groups w g) (set : UInt32) :
    ∃ g', g.apply (eventSend w set).2.flags = some g' ∧ Groups (eventSend w set).1 g' := by
  by_cases zero : set = 0
  · simp only [eventSend, if_pos zero]
    exact ⟨g, rfl, now⟩
  · obtain ⟨mid, scanned, code⟩ := now.eventSend_eq zero
    rw [code]
    have value : g.value ||| set = w.set ||| set := by rw [now.value]
    have left : mid.waits.list () =
        (w.waits.list ()).filter fun t => !(w.request t).satisfied (w.set ||| set) := scanned.list
    have stays : ∀ t ∈ mid.waits.list (), t ∈ w.waits.list () ∧
        (w.request t).satisfied (w.set ||| set) = false ∧ mid.request t = w.request t := by
      intro t inside
      rw [left, List.mem_filter, Bool.not_eq_true'] at inside
      refine ⟨inside.1, inside.2, ?_⟩
      have bits : mid.eventSet t = w.eventSet t := (scanned.same t (Or.inr inside.2)).2
      simp only [EventWorld.request, bits, scanned.info]
    refine ⟨g.send set, rfl, ?_⟩
    constructor
    · exact scanned.sound
    · simp only [FlagGroup.send]
      rw [value]
    · have filtered := now.waiting.filter fun m => !m.2.satisfied (w.set ||| set)
      rw [List.filter_map] at filtered
      simp only [FlagGroup.send]
      rw [value]
      apply filtered.trans
      rw [left]
      apply List.Perm.of_eq
      apply List.map_congr_left
      intro t inside
      have inside' : t ∈ mid.waits.list () := by
        rw [left]
        exact inside
      exact congrArg (Prod.mk t) (stays t inside').2.2.symm
    · intro t
      simp only [FlagGroup.send]
      rw [value, now.find_woken]
      split
      case h_1 _ r found =>
        split at found
        case isTrue woken =>
          cases found
          obtain ⟨awake, error, bits⟩ := scanned.handed t woken.1 woken.2
          have call : mid.receiving t = true := by
            rw [scanned.receiving]
            exact now.calls t woken.1
          rw [if_pos ⟨call, awake, error⟩, bits]
          exact if_pos woken.2
        case isFalse => cases found
      case h_2 found =>
        have asleep : t ∉ w.waits.list () ∨ (w.request t).satisfied (w.set ||| set) = false := by
          split at found
          case isTrue => cases found
          case isFalse asleep =>
            rw [not_and_or, Bool.not_eq_true] at asleep
            exact asleep
        obtain ⟨thread, bits⟩ := scanned.same t asleep
        rw [now.received t, thread, bits, scanned.receiving]
    · intro t inside
      obtain ⟨_, missing, same⟩ := stays t inside
      have request : ∀ value, EventWorld.request { mid with set := value } t = w.request t := fun _ => same
      rw [request]
      exact FlagRequest.satisfied_cleared missing _
    · intro t inside
      rw [scanned.receiving]
      exact now.calls t (stays t inside).1
    · intro t inside
      rw [scanned.info]
      exact now.options t (stays t inside).1

theorem Groups.alone (now : Groups w g) (awake : (w.waits.thread t).suspended = false)
    (idle : w.receiving t = false) {w' : EventWorld T} (set : w'.set = w.set)
    (sound : w'.waits.Sound) (list : w'.waits.list = w.waits.list) (receiving : w'.receiving = w.receiving)
    (same : ∀ u, u ≠ t → w'.waits.thread u = w.waits.thread u ∧ w'.eventSet u = w.eventSet u ∧
      w'.eventInfo u = w.eventInfo u) : Groups w' g where
  sound := sound
  value := by rw [set, now.value]
  waiting := by
    apply now.waiting.trans
    rw [list]
    apply List.Perm.of_eq
    apply List.map_congr_left
    intro u inside
    have other : u ≠ t := fun own => now.sound.fresh awake () (own ▸ inside)
    simp only [EventWorld.request, (same u other).2.1, (same u other).2.2]
  received u := by
    rw [now.received u, receiving]
    by_cases own : u = t
    · subst own
      rw [if_neg (by simp [idle]), if_neg (by simp [idle])]
    · rw [(same u own).1, (same u own).2.1]
  unsatisfied u inside := by
    rw [list] at inside
    have other : u ≠ t := fun own => now.sound.fresh awake () (own ▸ inside)
    rw [set]
    simp only [EventWorld.request, (same u other).2.1, (same u other).2.2]
    exact now.unsatisfied u inside
  calls u inside := by
    rw [list] at inside
    rw [receiving]
    exact now.calls u inside
  options u inside := by
    rw [list] at inside
    have other : u ≠ t := fun own => now.sound.fresh awake () (own ▸ inside)
    rw [(same u other).2.2]
    exact now.options u inside

omit [DecidableEq T] in
theorem Groups.clear (now : Groups w g) (bits : UInt32) :
    Groups { w with set := w.set &&& ~~~bits } { g with value := g.value &&& ~~~bits } where
  sound := now.sound
  value := by
    simp only
    rw [now.value]
  waiting := now.waiting
  received := now.received
  unsatisfied t inside := FlagRequest.satisfied_cleared (now.unsatisfied t inside) bits
  calls := now.calls
  options := now.options

theorem eventRecv_cases {set : UInt32} {option : UInt8} {timeout : Int32}
    {result : EventWorld T × EventNote T} (step : eventRecv w t set option timeout = some result) :
    result = (w, .refused .error) ∨
    (option &&& rtEventFlagAnd ≠ 0 ∨ option &&& rtEventFlagOr ≠ 0) ∧
      (((requestOf set option).satisfied w.set = true ∧ result =
        ({ w with
            waits := (w.waits.setError t .intr).setError t .ok
            eventSet := update w.eventSet t (w.set &&& set)
            eventInfo := update w.eventInfo t option
            set := if option &&& rtEventFlagClear ≠ 0 then w.set &&& ~~~set else w.set },
          .received t set option (w.set &&& set))) ∨
      ((requestOf set option).satisfied w.set = false ∧
        (result = ({ w with waits := (w.waits.setError t .intr).setError t .timeout }, .refused .timeout) ∨
        result = ({ w with
            eventSet := update w.eventSet t set
            eventInfo := update w.eventInfo t option
            waits := (w.waits.setError t .intr).suspendFor () t w.flag timeout
            receiving := update w.receiving t true }, .waits t set option)))) := by
  unfold eventRecv at step
  split at step
  case isTrue =>
    cases step
    exact Or.inl rfl
  case isFalse =>
    right
    -- the two ways to ask agree with the request
    have asks : ∀ got : Bool, (if option &&& rtEventFlagAnd ≠ 0 then some (w.set &&& set == set)
        else if option &&& rtEventFlagOr ≠ 0 then some (w.set &&& set != 0) else none) = some got →
        (option &&& rtEventFlagAnd ≠ 0 ∨ option &&& rtEventFlagOr ≠ 0) ∧
          (requestOf set option).satisfied w.set = got := by
      intro got status
      by_cases every : option &&& rtEventFlagAnd = 0
      · by_cases some : option &&& rtEventFlagOr = 0
        · simp [every, some] at status
        · simp only [every, some, ne_eq, not_true_eq_false, not_false_eq_true, if_true, if_false,
            Option.some.injEq] at status
          exact ⟨Or.inr some, by simp [FlagRequest.satisfied, requestOf, every, status]⟩
      · simp only [every, ne_eq, not_false_eq_true, if_true, Option.some.injEq] at status
        exact ⟨Or.inl every, by simp [FlagRequest.satisfied, requestOf, every, status]⟩
    simp only at step
    split at step
    case h_1 => cases step
    case h_2 status =>
      cases step
      exact ⟨(asks true status).1, Or.inl ⟨(asks true status).2, rfl⟩⟩
    case h_3 status =>
      refine ⟨(asks false status).1, Or.inr ⟨(asks false status).2, ?_⟩⟩
      split at step
      · cases step
        exact Or.inl rfl
      · cases step
        exact Or.inr rfl

section
variable (now : Groups w g) (awake : (w.waits.thread t).suspended = false)
include now awake

theorem Groups.recvNow (idle : w.receiving t = false) (set : UInt32) (option : UInt8) :
    Groups { w with
        waits := (w.waits.setError t .intr).setError t .ok
        eventSet := update w.eventSet t (w.set &&& set)
        eventInfo := update w.eventInfo t option
        set := if option &&& rtEventFlagClear ≠ 0 then w.set &&& ~~~set else w.set }
      { g with value := g.value &&& ~~~((requestOf set option).cleared (w.set &&& set)) } := by
  have value : (if option &&& rtEventFlagClear ≠ 0 then w.set &&& ~~~set else w.set) =
      w.set &&& ~~~((requestOf set option).cleared (w.set &&& set)) := by
    by_cases clear : option &&& rtEventFlagClear = 0
    · simp [clear, FlagRequest.cleared, requestOf]
    · simp [clear, FlagRequest.cleared, requestOf, clear_received]
  rw [value]
  apply Groups.alone (now.clear _) (t := t)
  · exact awake
  · exact idle
  · rfl
  · have marked : (w.waits.setError t .intr).Sound := now.sound.set t _ rfl
    exact marked.set t _ rfl
  · rfl
  · rfl
  · intro u other
    simp [Waits.setError, Waits.set, other]

theorem Groups.wait (idle : w.receiving t = false) {set : UInt32} {option : UInt8}
    (options : option &&& rtEventFlagAnd ≠ 0 ∨ option &&& rtEventFlagOr ≠ 0)
    (missing : (requestOf set option).satisfied w.set = false) (timeout : Int32) :
    Groups { w with
        eventSet := update w.eventSet t set
        eventInfo := update w.eventInfo t option
        waits := (w.waits.setError t .intr).suspendFor () t w.flag timeout
        receiving := update w.receiving t true }
      { g with waiting := g.waiting ++ [(t, requestOf set option)] } := by
  have still : ((w.waits.setError t .intr).thread t).suspended = false := by
    simpa [Waits.setError] using awake
  have fresh := now.sound.fresh awake ()
  have members : ∀ u, u ∈ ((w.waits.setError t .intr).suspendFor () t w.flag timeout).list () →
      u = t ∨ u ≠ t ∧ u ∈ w.waits.list () := by
    intro u inside
    rcases (Waits.mem_suspendFor_list _ () () t u w.flag timeout).mp inside with before | ⟨_, own⟩
    · have listed : u ∈ w.waits.list () := before
      exact Or.inr ⟨fun own => fresh (own ▸ listed), listed⟩
    · exact Or.inl own
  constructor
  · have marked : (w.waits.setError t .intr).Sound := now.sound.set t _ rfl
    exact marked.suspendFor still () w.flag timeout
  · exact now.value
  · have inserted : (((w.waits.setError t .intr).suspendFor () t w.flag timeout).list ()).Perm
        (w.waits.list () ++ [t]) := by
      rw [Waits.suspendFor_list _ () w.flag timeout still, Function.update_self]
      exact (perm_ipcListInsert ..).trans (List.perm_append_singleton t _).symm
    apply (now.waiting.append_right _).trans
    apply List.Perm.symm
    apply (inserted.map _).trans
    rw [List.map_append, List.map_singleton]
    apply List.Perm.of_eq
    congr 1
    · apply List.map_congr_left
      intro u inside
      have other : u ≠ t := fun own => fresh (own ▸ inside)
      simp [EventWorld.request, other]
    · simp [EventWorld.request]
  · intro u
    rw [now.received u]
    by_cases own : u = t
    · subst own
      rw [Waits.suspendFor_asleep, if_neg (by simp [idle]), if_neg (by simp)]
    · rw [Waits.suspendFor_other _ () w.flag timeout own]
      simp [Waits.setError, Waits.set, own]
  · intro u inside
    rcases members u inside with rfl | ⟨other, listed⟩
    · simpa [EventWorld.request] using missing
    · simpa [EventWorld.request, other] using now.unsatisfied u listed
  · intro u inside
    rcases members u inside with rfl | ⟨other, listed⟩
    · simp
    · simpa [other] using now.calls u listed
  · intro u inside
    rcases members u inside with rfl | ⟨other, listed⟩
    · simpa using options
    · simpa [other] using now.options u listed

theorem Groups.recv (idle : w.receiving t = false) {set : UInt32} {option : UInt8} {timeout : Int32}
    {result : EventWorld T × EventNote T} (step : eventRecv w t set option timeout = some result) :
    ∃ g', g.apply result.2.flags = some g' ∧ Groups result.1 g' := by
  rcases eventRecv_cases step with rfl | ⟨options, ⟨got, rfl⟩ | ⟨missing, rfl | rfl⟩⟩
  · exact ⟨g, rfl, now⟩
  · refine ⟨_, ?_, now.recvNow awake idle set option⟩
    have bits : (requestOf set option).receive g.value = some (w.set &&& set) := by
      rw [FlagRequest.receive, now.value, got]
      rfl
    simp only [EventNote.flags, FlagGroup.apply, if_pos bits]
  · refine ⟨g, rfl, now.alone awake idle rfl ?_ rfl rfl ?_⟩
    · have marked : (w.waits.setError t .intr).Sound := now.sound.set t _ rfl
      exact marked.set t _ rfl
    · intro u other
      simp [Waits.setError, Waits.set, other]
  · have nothing : g.received t = none := by
      rw [now.received t]
      exact if_neg (by simp [idle])
    refine ⟨_, ?_, now.wait awake idle options missing timeout⟩
    rw [← now.value] at missing
    simp only [EventNote.flags, FlagGroup.apply, if_pos (And.intro missing nothing)]

theorem Groups.recvWoken (call : w.receiving t = true) :
    ∃ g', g.apply (eventRecvWoken w t).2.flags = some g' ∧ Groups (eventRecvWoken w t).1 g' := by
  have received := now.received t
  have fresh := now.sound.fresh awake ()
  have others : ∀ received' : T → Option UInt32, (∀ u, u ≠ t → received' u = g.received u) →
      received' t = none → Groups (eventRecvWoken w t).1 { g with received := received' } := by
    intro received' same none
    constructor
    · exact now.sound
    · exact now.value
    · exact now.waiting
    · intro u
      by_cases own : u = t
      · subst own
        simp [none, eventRecvWoken]
      · simp only [same u own, now.received u]
        simp [eventRecvWoken, own]
    · exact now.unsatisfied
    · intro u inside
      have other : u ≠ t := fun own => fresh (own ▸ inside)
      simpa [eventRecvWoken, other] using now.calls u inside
    · exact now.options
  by_cases ok : (w.waits.thread t).error = .ok
  · rw [if_pos ⟨call, awake, ok⟩] at received
    refine ⟨{ g with received := update g.received t none }, ?_, others _ ?_ ?_⟩
    · simp [eventRecvWoken, EventNote.flags, FlagGroup.apply, ok, received]
    · exact fun u other => Function.update_of_ne other ..
    · exact Function.update_self ..
  · rw [if_neg fun all => ok all.2.2] at received
    refine ⟨g, ?_, others g.received (fun _ _ => rfl) received⟩
    simp [eventRecvWoken, EventNote.flags, FlagGroup.apply, ok, received]

end

theorem Groups.reset (now : Groups w g) :
    ∃ g', g.apply (eventReset w).2.flags = some g' ∧ Groups (eventReset w).1 g' := by
  have all := ipcListResumeAll_resumedAll now.sound ()
  have nobody : ∀ t, t ∉ (eventReset w).1.waits.list () := by
    intro t inside
    have empty : t ∈ ([] : List T) := all.empty ▸ inside
    cases empty
  refine ⟨{ g with value := 0, waiting := [] }, rfl, ⟨all.sound, rfl, ?_, ?_, ?_, ?_, ?_⟩⟩
  · have empty : (eventReset w).1.waits.list () = [] := all.empty
    rw [empty]
    exact .refl _
  · intro t
    have thread : (eventReset w).1.waits.thread t = (ipcListResumeAll w.waits ()).thread t := rfl
    rw [now.received t, thread]
    by_cases inside : t ∈ w.waits.list ()
    · have asleep := now.sound.linked () t inside
      rw [all.woken t inside, if_neg (by simp [asleep]), if_neg (by simp)]
    · rw [all.same t inside]
      rfl
  · exact fun t inside => absurd inside (nobody t)
  · exact fun t inside => absurd inside (nobody t)
  · exact fun t inside => absurd inside (nobody t)

theorem Groups.timeout (now : Groups w g) (asleep : (w.waits.thread t).suspended = true) :
    Groups { w with waits := threadTimeout w.waits t }
      { g with waiting := g.waiting.filter fun m => m.1 ≠ t } := by
  have left : ∀ u, u ∈ (threadTimeout w.waits t).list () → u ∈ w.waits.list () :=
    fun u inside => List.mem_of_mem_erase inside
  constructor
  · exact now.sound.timeout t
  · exact now.value
  · have erased : (threadTimeout w.waits t).list () = (w.waits.list ()).filter fun u => decide (u ≠ t) := by
      apply ((now.sound.nodup ()).erase_eq_filter t).trans
      exact List.filter_congr fun u _ => by simp [bne, BEq.beq]
    have filtered := now.waiting.filter fun m => decide (m.1 ≠ t)
    rw [List.filter_map] at filtered
    rw [erased]
    exact filtered
  · intro u
    rw [now.received u]
    by_cases own : u = t
    · subst own
      rw [if_neg (by simp [asleep]), if_neg (by simp [threadTimeout])]
    · have same : (threadTimeout w.waits t).thread u = w.waits.thread u := Waits.set_other _ t _ own
      rw [same]
  · exact fun u inside => now.unsatisfied u (left u inside)
  · exact fun u inside => now.calls u (left u inside)
  · exact fun u inside => now.options u (left u inside)

end

end RtThread.Ipc
