import RtThread.At.Client
import RtThread.At.ServerLines

/-! A response that comes back with `RT_EOK` has every line, in order, as long as no line is lost before a line that ends
it well, and the parser is through with a line before the next call. -/

set_option autoImplicit false
namespace RtThread.At
open Lib

/-- What the response object of a call is to hold: the lines, one behind the other, each one found by its number. -/
structure Answered (resp : AtResponse) (lines : List (List UInt8)) : Prop where
  counts : resp.lineCounts = lines.length
  bytes : ∀ j < (lines.flatMap respText).length, resp.buf j = (lines.flatMap respText).getD j 0
  getLine : (∀ line ∈ lines, 0 ∉ line.dropLast) →
    ∀ i line, lines[i]? = some line → atRespGetLine resp (i + 1) = some line.dropLast

namespace AtClient
variable (c : AtClientConfig) (s : AtClient)

/-- A call that is about to return `RT_EOK` has its answer and has lost nothing of it; no response has been written to
after its call. -/
def Sound : Prop :=
  s.wild = false ∧ ∀ r, s.lock = some ⟨some r, .unlock .eok⟩ → Answered (s.resps r) s.taken ∧ s.lost = false

/-- The parser is in time with this step: no other call has begun since it has seen the response, and the call has not
returned when a line is copied. A line that ends the response well ends one that has lost no line. -/
def InTime : AtParserPc → Prop
  | .pick _ call => call = s.calls
  | .copy line call r => call = s.calls ∧ (((s.resps r).store line).isSome → s.lock.isSome)
  | .status line call r => call = s.calls ∧ (respEnd c (s.resps r) line = some .ok → s.lost = false)
  | .clear call => call = s.calls
  | .notify call => call = s.calls
  | _ => True

instance : (pc : AtParserPc) → Decidable (s.InTime c pc)
  | .pick _ call => inferInstanceAs (Decidable (call = s.calls))
  | .copy _ _ _ => inferInstanceAs (Decidable (_ ∧ _))
  | .status _ _ _ => inferInstanceAs (Decidable (_ ∧ _))
  | .clear call => inferInstanceAs (Decidable (call = s.calls))
  | .notify call => inferInstanceAs (Decidable (call = s.calls))
  | .readline _ _ _ => inferInstanceAs (Decidable True)
  | .look _ => inferInstanceAs (Decidable True)
  | .fault => inferInstanceAs (Decidable True)

def Allowed (a : AtAction) : Prop := a = .parse → s.InTime c s.parser

instance (a : AtAction) : Decidable (s.Allowed c a) := inferInstanceAs (Decidable (_ → _))

end AtClient

variable {c : AtClientConfig} {s s' : AtClient} {resp resp' : AtResponse} {lines : List (List UInt8)}
  {line text : List UInt8}

/-! ## Lines in a response object -/

structure Stored (resp : AtResponse) (lines : List (List UInt8)) : Prop where
  counts : resp.lineCounts = lines.length
  len : resp.bufLen = (lines.flatMap respText).length
  room : resp.bufLen ≤ resp.bufSize
  bytes : ∀ j < (lines.flatMap respText).length, resp.buf j = (lines.flatMap respText).getD j 0

theorem Stored.none (noLen : resp.bufLen = 0) (noLines : resp.lineCounts = 0) : Stored resp [] where
  counts := noLines
  len := noLen
  room := by omega
  bytes j inside := absurd inside (Nat.not_lt_zero j)

theorem Stored.store (stored : Stored resp lines) (copied : resp.store line = some resp') :
    Stored resp' (lines ++ [line]) := by
  obtain ⟨counts, len, -, bytes⟩ := stored
  unfold AtResponse.store at copied
  split at copied
  case isFalse => cases copied
  case isTrue room =>
    cases copied
    have joined : (lines ++ [line]).flatMap respText = lines.flatMap respText ++ respText line := by simp
    refine ⟨by simp [counts], by simp [len], Nat.le_of_lt room, fun j inside => ?_⟩
    rw [joined, List.length_append] at inside
    rw [joined]
    simp only [copyTo, len]
    split
    case isTrue new =>
      rw [List.getD_eq_getElem?_getD, List.getD_eq_getElem?_getD, List.getElem?_append_right new.1]
    case isFalse old =>
      have before : j < (lines.flatMap respText).length := by omega
      rw [bytes j before, List.getD_eq_getElem?_getD, List.getD_eq_getElem?_getD, List.getElem?_append_left before]

theorem lineAt_eq {buf : Nat → UInt8} {size i p : Nat} (noNul : ∀ line ∈ lines, 0 ∉ line.dropLast)
    (room : p + (lines.flatMap respText).length ≤ size)
    (bytes : ∀ j < (lines.flatMap respText).length, buf (p + j) = (lines.flatMap respText).getD j 0)
    (found : lines[i]? = some line) : lineAt buf size i p = some line.dropLast := by
  induction lines generalizing i p with
  | nil => simp at found
  | cons first rest ih =>
    have parts : ((first :: rest).flatMap respText).length = first.dropLast.length + 1 + (rest.flatMap respText).length := by
      rw [List.flatMap_cons, List.length_append, respText, List.length_append]
      rfl
    have here : stringAt buf (size - p) p = some first.dropLast := by
      refine stringAt_eq (by omega) (noNul _ List.mem_cons_self) fun j small => ?_
      rw [bytes j (by omega)]
      rcases Nat.lt_or_eq_of_le small with inside | rfl
      · simp only [List.flatMap_cons, respText, List.append_assoc, List.getD_eq_getElem?_getD]
        rw [List.getElem?_append_left inside]
      · simp [respText, List.getD_eq_getElem?_getD]
    cases i with
    | zero =>
      cases found
      exact here
    | succ i =>
      rw [lineAt, here]
      refine ih (fun line inside => noNul line (List.mem_cons_of_mem _ inside)) (by omega) (fun j small => ?_) found
      have shifted := bytes (first.dropLast.length + 1 + j) (by omega)
      rw [← Nat.add_assoc, ← Nat.add_assoc] at shifted
      rw [shifted, List.flatMap_cons, List.getD_eq_getElem?_getD, List.getD_eq_getElem?_getD,
        List.getElem?_append_right (by simp [respText])]
      simp [respText]

theorem Stored.answered (stored : Stored resp lines) : Answered resp lines where
  counts := stored.counts
  bytes := stored.bytes
  getLine noNul i line found := by
    have small : i < lines.length := (List.getElem?_eq_some_iff.mp found).1
    have asked : ¬(i + 1 > resp.lineCounts ∨ i + 1 = 0) := by
      rw [stored.counts]
      omega
    rw [atRespGetLine, if_neg asked]
    have room : 0 + (lines.flatMap respText).length ≤ resp.bufSize := by
      rw [Nat.zero_add, ← stored.len]
      exact stored.room
    exact lineAt_eq noNul room (fun j inside => by rw [Nat.zero_add]; exact stored.bytes j inside) found

/-! ## The parser and the call that it serves -/

def AtParserPc.serves : AtParserPc → Option Nat
  | .pick _ call => some call
  | .copy _ call _ => some call
  | .status _ call _ => some call
  | .clear call => some call
  | .notify call => some call
  | _ => none

namespace AtClient

structure Idle (s : AtClient) : Prop where
  noResp : s.resp = none
  free : s.parser.serves ≠ some s.calls

def Complete (s : AtClient) (r : Nat) : Prop := Stored (s.resps r) s.taken ∧ s.lost = false

structure Done (s : AtClient) (r : Nat) : Prop extends Idle s where
  complete : s.respStatus = .ok → s.Complete r

def Pending (s : AtClient) (r : Nat) (line : List UInt8) : Prop :=
  ∃ earlier, s.taken = earlier ++ [line] ∧ (s.lost = false → Stored (s.resps r) earlier)

def Progress (s : AtClient) (r : Nat) : AtParserPc → Prop
  | .pick line call => call = s.calls → s.Pending r line
  | .copy line call r' => call = s.calls → r' = r ∧ s.Pending r line
  | .status _ call r' => call = s.calls → r' = r ∧ (s.lost = false → Stored (s.resps r) s.taken)
  | .clear call => call = s.calls → s.respStatus = .ok → s.Complete r
  | .notify call => call = s.calls → s.resp = none ∧ (s.respStatus = .ok → s.Complete r)
  | _ => s.resp.isSome → s.lost = false → Stored (s.resps r) s.taken

structure Asked (s : AtClient) (r : Nat) : Prop where
  own : s.resp = none ∨ s.resp = some r
  progress : s.Progress r s.parser

def Emptied (s : AtClient) (r : Nat) : Prop := (s.resps r).bufLen = 0 ∧ (s.resps r).lineCounts = 0

def Held (s : AtClient) : Option AtCall → Prop
  | none => s.resp = none
  | some ⟨none, _⟩ => s.Idle
  | some ⟨some _, .status⟩ => s.Idle
  | some ⟨some _, .reset⟩ => s.Idle
  | some ⟨some r, .publish⟩ => s.Idle ∧ s.Emptied r
  | some ⟨some r, .send⟩ => s.Asked r ∧ (s.respNotice ≠ 0 → s.Done r)
  | some ⟨some r, .wait⟩ => s.Asked r ∧ (s.respNotice ≠ 0 → s.Done r)
  | some ⟨some r, .check⟩ => s.Done r
  | some ⟨some r, .exit .eok⟩ => s.Idle ∧ s.Complete r
  | some ⟨some r, .unlock .eok⟩ => s.Idle ∧ s.Complete r
  | some ⟨some r, .unlock _⟩ => s.resp = none ∧ s.Asked r
  | some ⟨some r, _⟩ => s.Asked r

structure Inv (s : AtClient) : Prop where
  tame : s.wild = false
  past : ∀ call, s.parser.serves = some call → call ≤ s.calls
  held : s.Held s.lock

/-! ## The steps of the parser -/

theorem recvReadline_eq (line : List UInt8) (lastCh ch : UInt8) (isFull : Bool) : ∃ pc lost,
    s.recvReadline c line lastCh isFull ch = { s with parser := pc, lost } ∧ pc.serves = none ∧
      (lost = false → s.lost = false) ∧ (s.resp = none → lost = s.lost) := by
  unfold recvReadline
  generalize (if line.length < c.recvBufsz then line ++ [ch] else line) = line'
  dsimp only
  split
  · split
    · exact ⟨.start, s.lost || s.resp.isSome, rfl, rfl, fun none_ => (Bool.or_eq_false_iff.mp none_).1,
        fun noResp => by simp [noResp]⟩
    · exact ⟨.look line', s.lost, rfl, rfl, id, fun _ => rfl⟩
  · exact ⟨.readline line' ch _, s.lost, rfl, rfl, id, fun _ => rfl⟩

theorem Idle.turns (idle : s.Idle) (inTime : s.InTime c s.parser) (step : s.clientParser c = some s') :
    ∃ pc, s' = { s with parser := pc } ∧ pc.serves = none := by
  unfold clientParser at step
  have free := idle.free
  split at step <;> rename_i isHere <;> rw [isHere] at inTime free
  case h_1 => cases step
  case h_2 line =>
    have noResp : s.resp.isSome = false := by rw [idle.noResp]; rfl
    simp only [noResp, Bool.false_eq_true, if_false, ite_self, Option.some.injEq] at step
    exact ⟨.start, step.symm, rfl⟩
  case h_3 | h_6 | h_7 => exact absurd (congrArg some inTime) free
  case h_4 | h_5 => exact absurd (congrArg some inTime.1) free
  case h_8 => cases step

theorem Idle.asked {r : Nat} (idle : s.Idle) : s.Asked r := by
  obtain ⟨noResp, free⟩ := idle
  refine ⟨.inl noResp, ?_⟩
  cases isHere : s.parser <;> rw [isHere] at free
  case readline | look | fault => exact fun there => by rw [noResp] at there; cases there
  all_goals exact fun own => absurd (congrArg some own) free

theorem Asked.parse {r : Nat} (asked : s.Asked r) (inTime : s.InTime c s.parser)
    (step : s.clientParser c = some s') : s'.Asked r ∧ (s'.respNotice = s.respNotice ∨ s'.Done r) := by
  obtain ⟨own, progress⟩ := asked
  unfold clientParser at step
  split at step <;> rename_i isHere <;> rw [isHere] at inTime progress
  case h_1 => cases step
  case h_2 line =>
    split at step
    case isTrue =>
      cases step
      exact ⟨⟨own, progress⟩, .inl rfl⟩
    case isFalse =>
      split at step <;> cases step
      case isTrue there => exact ⟨⟨own, fun _ => ⟨s.taken, rfl, progress there⟩⟩, .inl rfl⟩
      case isFalse => exact ⟨⟨own, progress⟩, .inl rfl⟩
  case h_3 line call =>
    split at step <;> cases step
    case h_1 r' isResp =>
      have same : r' = r := by
        rcases own with noResp | isOwn
        · rw [noResp] at isResp
          cases isResp
        · exact (Option.some.inj (isOwn.symm.trans isResp)).symm
      exact ⟨⟨own, fun isCall => ⟨same, progress isCall⟩⟩, .inl rfl⟩
    case h_2 noResp => exact ⟨⟨own, fun there => by rw [noResp] at there; cases there⟩, .inl rfl⟩
  case h_4 line call r' =>
    obtain ⟨rfl, earlier, isTaken, stored⟩ := progress inTime.1
    split at step <;> cases step
    case h_1 resp' copied =>
      refine ⟨⟨own, fun _ => ⟨rfl, fun kept => ?_⟩⟩, .inl rfl⟩
      have taken : Stored resp' s.taken := isTaken ▸ (stored kept).store copied
      rw [← Function.update_self r' resp' s.resps] at taken
      exact taken
    case h_2 => exact ⟨⟨own, fun _ => ⟨rfl, fun kept => by cases kept⟩⟩, .inl rfl⟩
  case h_5 line call r' =>
    obtain ⟨rfl, stored⟩ := progress inTime.1
    split at step <;> cases step
    case h_1 status ends =>
      refine ⟨⟨own, fun _ well => ?_⟩, .inl rfl⟩
      have kept : s.lost = false := inTime.2 (ends.trans (congrArg some well))
      exact ⟨stored kept, kept⟩
    case h_2 => exact ⟨⟨own, fun _ kept => stored kept⟩, .inl rfl⟩
  case h_6 call =>
    cases step
    exact ⟨⟨.inl rfl, fun _ => ⟨rfl, progress inTime⟩⟩, .inl rfl⟩
  case h_7 call =>
    cases step
    obtain ⟨noResp, complete⟩ := progress inTime
    have done : Done { s with respNotice := s.respNotice + 1, parser := .start } r := ⟨⟨noResp, nofun⟩, complete⟩
    exact ⟨done.toIdle.asked, .inr done⟩
  case h_8 => cases step

theorem Inv.parser_kept (inv : s.Inv) (inTime : s.InTime c s.parser) (step : s.clientParser c = some s') :
    s'.wild = false ∧ (∀ call, s'.parser.serves = some call → call ≤ s'.calls) ∧ s'.lock = s.lock ∧
      (s.resp = none → s'.resp = none) := by
  obtain ⟨tame, past, -⟩ := inv
  unfold clientParser at step
  split at step <;> rename_i isHere <;> rw [isHere] at inTime past
  case h_1 => cases step
  case h_2 line =>
    split at step
    case isTrue =>
      cases step
      exact ⟨tame, nofun, rfl, id⟩
    case isFalse =>
      split at step <;> cases step
      case isTrue => exact ⟨tame, fun call isCall => Nat.le_of_eq (Option.some.inj isCall).symm, rfl, id⟩
      case isFalse => exact ⟨tame, nofun, rfl, id⟩
  case h_3 line call | h_5 line call r =>
    split at step <;> cases step
    case h_1 => exact ⟨tame, past, rfl, id⟩
    case h_2 => exact ⟨tame, nofun, rfl, id⟩
  case h_4 line call r =>
    obtain ⟨rfl, open_⟩ := inTime
    split at step <;> cases step
    case h_1 resp' copied =>
      have locked : s.lock.isSome := open_ (Option.isSome_iff_exists.mpr ⟨resp', copied⟩)
      exact ⟨by simp [tame, locked], past, rfl, id⟩
    case h_2 => exact ⟨tame, past, rfl, id⟩
  case h_6 call =>
    cases step
    exact ⟨tame, past, rfl, fun _ => rfl⟩
  case h_7 call =>
    cases step
    exact ⟨tame, nofun, rfl, id⟩
  case h_8 => cases step

theorem Idle.turn {pc : AtParserPc} (idle : s.Idle) (free : pc.serves = none) : Idle { s with parser := pc } :=
  ⟨idle.noResp, fun own => by cases free.symm.trans own⟩

theorem Asked.turn {r : Nat} {pc : AtParserPc} {lost : Bool} (asked : s.Asked r) (free : pc.serves = none)
    (own : s.parser.serves = none) (fewer : lost = false → s.lost = false) :
    Asked { s with parser := pc, lost } r := by
  obtain ⟨ownResp, progress⟩ := asked
  have stored : s.resp.isSome → s.lost = false → Stored (s.resps r) s.taken := by
    cases isHere : s.parser <;> rw [isHere] at own progress <;> first | exact progress | cases own
  refine ⟨ownResp, ?_⟩
  cases pc <;> first | exact fun there kept => stored there (fewer kept) | cases free

theorem Held.turn {pc : AtParserPc} {call : Option AtCall} (held : s.Held call) (idle : s.Idle) (free : pc.serves = none) :
    Held { s with parser := pc } call := by
  have still := idle.turn free
  unfold Held at held ⊢
  split at held
  case h_1 => exact held
  case h_2 => exact still
  case h_3 => exact still
  case h_4 => exact still
  case h_5 => exact ⟨still, held.2⟩
  case h_6 | h_7 => exact ⟨still.asked, fun noticed => ⟨still, (held.2 noticed).complete⟩⟩
  case h_8 => exact ⟨still, held.complete⟩
  case h_9 => exact ⟨still, held.2⟩
  case h_10 => exact ⟨still, held.2⟩
  case h_11 => exact ⟨held.1, still.asked⟩
  case h_12 => exact still.asked

theorem Held.step {call : Option AtCall} (held : s.Held call) (quiet : s.Idle → s'.Held call)
    (asks : ∀ r, s.Asked r → s'.Asked r ∧ (s'.respNotice = s.respNotice ∨ s'.Done r))
    (noResp : s.resp = none → s'.resp = none) : s'.Held call := by
  have noticed : ∀ r, s.Asked r → s.respNotice = 0 → s'.Asked r ∧ (s'.respNotice ≠ 0 → s'.Done r) :=
    fun r asked none_ => by
      obtain ⟨asked, same | done⟩ := asks r asked
      · exact ⟨asked, fun some_ => absurd (same.trans none_) some_⟩
      · exact ⟨asked, fun _ => done⟩
  unfold Held at held quiet ⊢
  split at held
  case h_1 => exact noResp held
  case h_2 => exact quiet held
  case h_3 => exact quiet held
  case h_4 => exact quiet held
  case h_5 => exact quiet held.1
  case h_6 r | h_7 r =>
    by_cases none_ : s.respNotice = 0
    · exact noticed r held.1 none_
    · exact quiet (held.2 none_).toIdle
  case h_8 => exact quiet held.toIdle
  case h_9 => exact quiet held.1
  case h_10 => exact quiet held.1
  case h_11 => exact ⟨noResp held.1, (asks _ held.2).1⟩
  case h_12 => exact (asks _ held).1

theorem Inv.parse (inv : s.Inv) (inTime : s.InTime c s.parser) (step : s.clientParser c = some s') : s'.Inv := by
  obtain ⟨tame, past, sameLock, noResp⟩ := inv.parser_kept inTime step
  refine ⟨tame, past, ?_⟩
  rw [sameLock]
  refine inv.held.step (fun idle => ?_) (fun r asked => asked.parse inTime step) noResp
  obtain ⟨pc, rfl, free⟩ := idle.turns inTime step
  exact inv.held.turn idle free

theorem Inv.byte {ch lastCh : UInt8} {isFull : Bool} (inv : s.Inv) (isHere : s.parser = .readline line lastCh isFull) :
    (s.recvReadline c line lastCh isFull ch).Inv := by
  obtain ⟨pc, lost, same, free, fewer, noResp⟩ := s.recvReadline_eq (c := c) line lastCh ch isFull
  rw [same]
  have none_ : ∀ call, pc.serves = some call → call ≤ s.calls := fun call isCall => by cases free.symm.trans isCall
  refine ⟨inv.tame, none_, ?_⟩
  refine inv.held.step (fun idle => ?_) (fun r asked => ⟨asked.turn free (by rw [isHere]; rfl) fewer, .inl rfl⟩) id
  rw [noResp idle.noResp]
  exact inv.held.turn idle free

/-! ## The steps of the callers -/

theorem Asked.late {r : Nat} (asked : s.Asked r) : Asked { s with respStatus := .timeout } r := by
  obtain ⟨own, progress⟩ := asked
  refine ⟨own, ?_⟩
  cases isHere : s.parser <;> rw [isHere] at progress
  case clear => exact fun _ well => by cases well
  case notify => exact fun isCall => ⟨(progress isCall).1, fun well => by cases well⟩
  all_goals exact progress

theorem Asked.exit {r : Nat} (asked : s.Asked r) : Asked { s with resp := none } r := by
  obtain ⟨-, progress⟩ := asked
  refine ⟨.inl rfl, ?_⟩
  cases isHere : s.parser <;> rw [isHere] at progress
  case readline => exact nofun
  case look => exact nofun
  case fault => exact nofun
  case notify => exact fun isCall => ⟨rfl, (progress isCall).2⟩
  all_goals exact progress

theorem Idle.publish {r : Nat} (idle : s.Idle) (emptied : s.Emptied r) :
    Asked { s with resp := some r, taken := [], lost := false } r := by
  refine ⟨.inr rfl, ?_⟩
  have free := idle.free
  cases isHere : s.parser <;> rw [isHere] at free
  case readline | look | fault => exact fun _ _ => .none emptied.1 emptied.2
  all_goals exact fun own => absurd (congrArg some own) free

theorem Inv.execCmd_none {stage : AtStage} (inv : s.Inv) (isLock : s.lock = some ⟨none, stage⟩)
    (step : s.execCmd = some s') : s'.Inv := by
  obtain ⟨tame, past, held⟩ := inv
  rw [isLock] at held
  have idle : s.Idle := held
  rw [AtClient.execCmd, isLock] at step
  cases stage <;> dsimp only at step
  case wait =>
    split at step <;> cases step
    exact ⟨tame, past, idle.noResp, idle.free⟩
  all_goals cases step
  case unlock => exact ⟨tame, past, idle.noResp⟩
  case publish | exit => exact ⟨tame, past, rfl, idle.free⟩
  all_goals exact ⟨tame, past, idle.noResp, idle.free⟩

theorem Inv.execCmd_some {r : Nat} {stage : AtStage} (inv : s.Inv) (isLock : s.lock = some ⟨some r, stage⟩)
    (step : s.execCmd = some s') : s'.Inv := by
  obtain ⟨tame, past, held⟩ := inv
  rw [isLock] at held
  rw [AtClient.execCmd, isLock] at step
  cases stage <;> dsimp only at step
  case status =>
    cases step
    exact ⟨tame, past, held.noResp, held.free⟩
  case reset =>
    cases step
    have emptied : (Function.update s.resps r (s.resps r).reset r).bufLen = 0 ∧
        (Function.update s.resps r (s.resps r).reset r).lineCounts = 0 := by
      rw [Function.update_self]
      exact ⟨rfl, rfl⟩
    exact ⟨tame, past, ⟨held.noResp, held.free⟩, emptied⟩
  case publish =>
    cases step
    have asked := held.1.publish held.2
    exact ⟨tame, past, asked.own, asked.progress⟩
  case resetNotice =>
    cases step
    exact ⟨tame, past, ⟨held.own, held.progress⟩, fun some_ => absurd rfl some_⟩
  case send =>
    cases step
    exact ⟨tame, past, ⟨held.1.own, held.1.progress⟩, fun some_ =>
      ⟨⟨(held.2 some_).noResp, (held.2 some_).free⟩, (held.2 some_).complete⟩⟩
  case wait =>
    split at step <;> cases step
    case isFalse some_ => exact ⟨tame, past, ⟨(held.2 some_).noResp, (held.2 some_).free⟩, (held.2 some_).complete⟩
  case late =>
    cases step
    exact ⟨tame, past, held.late.own, held.late.progress⟩
  case check =>
    by_cases well : s.respStatus = .ok
    · rw [if_pos well] at step
      cases step
      exact ⟨tame, past, ⟨held.noResp, held.free⟩, held.complete well⟩
    · rw [if_neg well] at step
      cases step
      exact ⟨tame, past, held.toIdle.asked.own, held.toIdle.asked.progress⟩
  case exit result =>
    cases result <;> cases step
    case eok => exact ⟨tame, past, ⟨rfl, held.1.free⟩, held.2⟩
    case error | etimeout => exact ⟨tame, past, rfl, held.exit.own, held.exit.progress⟩
  case unlock result =>
    cases result <;> cases step
    case eok => exact ⟨tame, past, held.1.noResp⟩
    case error | etimeout => exact ⟨tame, past, held.1⟩

theorem Inv.act {a : AtAction} (inv : s.Inv) (allowed : s.Allowed c a) (step : s.act c a = some s') : s'.Inv := by
  cases a <;> unfold AtClient.act at step <;> dsimp only at step
  case call resp =>
    split at step <;> cases step
    case isTrue unlocked =>
      have noResp : s.resp = none := by
        have held := inv.held
        rw [Option.isNone_iff_eq_none.mp unlocked] at held
        exact held
      have free : s.parser.serves ≠ some (s.calls + 1) := fun own => absurd (inv.past _ own) (by omega)
      refine ⟨inv.tame, fun call isCall => Nat.le_succ_of_le (inv.past call isCall), ?_⟩
      cases resp <;> exact ⟨noResp, free⟩
  case go =>
    cases isLock : s.lock with
    | none => rw [AtClient.execCmd, isLock] at step; cases step
    | some call =>
      obtain ⟨_ | r, stage⟩ := call
      · exact inv.execCmd_none isLock step
      · exact inv.execCmd_some isLock step
  case timeout =>
    split at step
    case h_2 => cases step
    case h_1 call isLock =>
      split at step <;> cases step
      case isTrue waits =>
        obtain ⟨resp, stage⟩ := call
        obtain ⟨rfl, -⟩ := waits
        have held := inv.held
        rw [isLock] at held
        cases resp with
        | none => exact ⟨inv.tame, inv.past, held.noResp, held.free⟩
        | some r => exact ⟨inv.tame, inv.past, held.1.own, held.1.progress⟩
  case byte ch =>
    split at step <;> cases step
    case h_1 isHere => exact inv.byte isHere
  case parse => exact inv.parse (allowed rfl) step

theorem Inv.sound (inv : s.Inv) : s.Sound := by
  refine ⟨inv.tame, fun r returns => ?_⟩
  have held := inv.held
  rw [returns] at held
  exact ⟨held.2.1.answered, held.2.2⟩

theorem inv_init (resps : Nat → AtResponse) : (init resps).Inv := ⟨rfl, nofun, rfl⟩

/-! ## Runs -/

section runs
variable (c)

def Step (s : AtClient) (a : AtAction) (s' : AtClient) : Prop := s.act c a = some s'

end runs

def plain : AtClientConfig := ⟨16, 0, []⟩

end AtClient

end RtThread.At
