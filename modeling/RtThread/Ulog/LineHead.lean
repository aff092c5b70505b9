import RtThread.Ulog.LineBounds

/-! The head of a line of `ulog`, and what its length is. -/

set_option autoImplicit false
namespace RtThread.Ulog
open Kservice Lib

/-! ## The fixed formats -/

section format
variable {args : VaList} {rest : List UInt8} {n k : Nat}

theorem twoPlaces (most : PutsAtMost args rest (n + 1) k) : PutsAtMost args (ascii "%02d" ++ rest) n (33 + k) := by
  have directive : parse args (ascii "02" ++ 'd'.toUInt8 :: rest) n =
      ('d'.toUInt8 :: rest, n, ⟨zeropad, 2, -1, 0⟩) := rfl
  have integer : integerFormat 'd'.toUInt8 = some (⟨10, by decide⟩, sign) := rfl
  exact most.number directive (by decide) integer (by decide) (by decide) (by decide) (by decide) (by decide) (by decide)

theorem threePlaces (most : PutsAtMost args rest (n + 1) k) : PutsAtMost args (ascii "%03d" ++ rest) n (33 + k) := by
  have directive : parse args (ascii "03" ++ 'd'.toUInt8 :: rest) n =
      ('d'.toUInt8 :: rest, n, ⟨zeropad, 3, -1, 0⟩) := rfl
  have integer : integerFormat 'd'.toUInt8 = some (⟨10, by decide⟩, sign) := rfl
  exact most.number directive (by decide) integer (by decide) (by decide) (by decide) (by decide) (by decide) (by decide)

theorem fourPlaces (most : PutsAtMost args rest (n + 1) k) : PutsAtMost args (ascii "%04X" ++ rest) n (33 + k) := by
  have directive : parse args (ascii "04" ++ 'X'.toUInt8 :: rest) n =
      ('X'.toUInt8 :: rest, n, ⟨zeropad, 4, -1, 0⟩) := rfl
  have integer : integerFormat 'X'.toUInt8 = some (⟨16, by decide⟩, large) := rfl
  exact most.number directive (by decide) integer (by decide) (by decide) (by decide) (by decide) (by decide) (by decide)

theorem dateFormat_length (args : VaList) : (complete args dateFormat).length ≤ 169 := by
  refine PutsAtMost.complete ?_
  have places : PutsAtMost args (ascii "%02d" ++ '-'.toUInt8 :: (ascii "%02d" ++ ' '.toUInt8 :: (ascii "%02d" ++
      ':'.toUInt8 :: (ascii "%02d" ++ ':'.toUInt8 :: (ascii "%02d" ++ []))))) 0 169 :=
    twoPlaces ((twoPlaces ((twoPlaces ((twoPlaces ((twoPlaces .nil).char _ (by decide))).char _ (by decide))).char _
      (by decide))).char _ (by decide))
  exact places

theorem usecFormat_length (args : VaList) : (complete args usecFormat).length ≤ 34 := by
  refine PutsAtMost.complete ?_
  have places : PutsAtMost args ('.'.toUInt8 :: (ascii "%03d" ++ [])) 0 34 := (threePlaces .nil).char _ (by decide)
  exact places

theorem addressFormat_length (args : VaList) : (complete args addressFormat).length ≤ 69 := by
  refine PutsAtMost.complete ?_
  have places : PutsAtMost args (ascii "%04X" ++ '-'.toUInt8 :: (ascii "%04X" ++ ':'.toUInt8 :: [' '.toUInt8])) 0 69 :=
    fourPlaces ((fourPlaces ((PutsAtMost.nil.char _ (by decide)).char _ (by decide))).char _ (by decide))
  exact places

end format

theorem short_of_le {args : VaList} {fmt : CString} {k : Nat} (length : (complete args fmt).length ≤ k) (small : k < 2 ^ 31) :
    (complete args fmt).length < 2 ^ 31 := Nat.lt_of_le_of_lt length small

/-! ## The parts of the head -/

section head
variable (b : LineBuf) (o : UlogOptions)

/-- The time, behind `n` characters -/
def timeText (now : UlogNow) (n : Nat) : List UInt8 :=
  match o.time with
  | .off => []
  | .tick => tickText now.tick
  | .timestamp =>
    let date := printed (b.most - n) dateFormat (numbers now.date)
    match now.usec with
    | none => date
    | some usec => date ++ printed (b.most - (n + date.length)) usecFormat (numbers fun _ => (usec.toInt32 / 1000).toUInt32)

def levelText (level : Nat) : List UInt8 :=
  if o.level then (if o.time ≠ .off then [0x20] else []) ++ (levelOutputInfo level).getD [] else []

def tagText (tag : CString) : List UInt8 :=
  if o.tag then (if o.level = false ∧ o.time ≠ .off then [0x20] else []) ++ tag.text else []

def gapText : List UInt8 := if o.threadName then if o.time ≠ .off ∨ o.level ∨ o.tag then [0x20] else [] else []

def headText (now : UlogNow) (level : Nat) (tag : CString) : List UInt8 :=
  colorText o level ++ timeText b o now (colorText o level).length ++ levelText o level ++ tagText o tag ++ gapText o

def threadText (thread : Option (List UInt8)) : List UInt8 :=
  if o.threadName then
    match thread with
    | some name => name.take (nameLen name)
    | none => ascii "ISR"
  else []

def startOf (now : UlogNow) (thread : Option (List UInt8)) (level : Nat) (tag : CString) : Nat :=
  min b.most ((headText b o now level tag).length + (threadText o thread).length + 2)

def NameFits (now : UlogNow) (thread : Option (List UInt8)) (level : Nat) (tag : CString) : Prop :=
  o.threadName → ∀ name, thread = some name → nameLen name = 0 ∨ (headText b o now level tag).length + nameLen name ≤ b.most

def LevelKnown (level : Nat) : Prop := level ≤ logLvlDbg ∧ (o.level → (levelOutputInfo level).isSome)

end head

section head
variable {b : LineBuf} {o : UlogOptions} {n : Nat}

theorem append_cut (text : List UInt8) : b.Moves (append b text) (min b.most n) (min b.most (n + text.length)) := by
  have moves := append_moves (b := b) (Nat.min_le_left b.most n) text
  rwa [show min b.most (min b.most n + text.length) = min b.most (n + text.length) by omega] at moves

theorem append_if (c : Prop) [Decidable c] (text : List UInt8) :
    b.Moves (fun line => if c then append b text line else line) (min b.most n)
      (min b.most (n + (if c then text else []).length)) := by
  by_cases holds : c
  · simp only [if_pos holds]
    exact append_cut text
  · simp only [if_neg holds]
    exact Moves.refl

theorem putDate_moves (now : UlogNow) (few : n ≤ 5) (timestamp : o.time = .timestamp) :
    b.Moves (putTime b o now) n (n + (timeText b o now n).length) ∧ n + (timeText b o now n).length ≤ b.most := by
  have most := b.most_ge
  obtain ⟨date, isDate⟩ : ∃ date, date = printed (b.most - n) dateFormat (numbers now.date) := ⟨_, rfl⟩
  have length := printed_length (b.most - n) dateFormat (numbers now.date)
  have first := printed_moves (b := b) (n := n) (by omega) (short_of_le (dateFormat_length (numbers now.date)) (by decide))
  rw [← isDate] at length first
  cases usec : now.usec with
  | none =>
    have text : timeText b o now n = date := by
      unfold timeText
      simp only [timestamp, usec, isDate]
    rw [text]
    refine ⟨?_, by omega⟩
    unfold putTime
    simp only [timestamp, usec]
    exact first
  | some usec' =>
    obtain ⟨words, isWords⟩ : ∃ words, words = numbers fun _ => (usec'.toInt32 / 1000).toUInt32 := ⟨_, rfl⟩
    have text : timeText b o now n = date ++ printed (b.most - (n + date.length)) usecFormat words := by
      unfold timeText
      simp only [timestamp, usec, isDate, isWords]
    have length' := printed_length (b.most - (n + date.length)) usecFormat words
    rw [text, List.length_append]
    refine ⟨?_, by omega⟩
    have both := first.trans
      (printed_moves (n := n + date.length) (by omega) (short_of_le (usecFormat_length words) (by decide)))
    rw [Nat.add_assoc] at both
    unfold putTime
    simp only [timestamp, usec, ← isWords]
    exact both

theorem tickText_length (tick : UInt32) : (tickText tick).length ≤ 34 := by
  have digits := (ultoaDigits_spec tick 32 tick.toNat_lt (by decide)).2
  rw [tickText, List.cons_append, List.length_cons, List.length_append, List.length_reverse, List.length_singleton]
  omega

theorem putTime_moves (now : UlogNow) (few : n ≤ 5) :
    b.Moves (putTime b o now) n (n + (timeText b o now n).length) ∧ n + (timeText b o now n).length ≤ b.most := by
  have most := b.most_ge
  cases time : o.time with
  | off =>
    have text : timeText b o now n = [] := by
      unfold timeText
      simp only [time]
    rw [text]
    refine ⟨?_, ?_⟩
    · unfold putTime
      simp only [time]
      exact Moves.refl
    · rw [List.length_nil]
      omega
  | tick =>
    have text : timeText b o now n = tickText now.tick := by
      unfold timeText
      simp only [time]
    have length := tickText_length now.tick
    rw [text]
    exact ⟨putTick_moves o time now few, by omega⟩
  | timestamp => exact putDate_moves now few time

theorem putLevel_moves {level : Nat} (known : o.level → (levelOutputInfo level).isSome) :
    ∃ step : Line → Line, (∀ line, putLevel b o level line = some (step line)) ∧
      b.Moves step (min b.most n) (min b.most (n + (levelText o level).length)) := by
  unfold putLevel levelText
  cases out : o.level with
  | false => exact ⟨id, fun _ => if_neg Bool.false_ne_true, Moves.refl⟩
  | true =>
    obtain ⟨info, isInfo⟩ := Option.isSome_iff_exists.mp (known out)
    simp only [if_true, isInfo, Option.map_some, Option.getD_some, List.length_append, ← Nat.add_assoc]
    exact ⟨_, fun _ => rfl, (append_if (o.time ≠ .off) [0x20]).trans (append_cut info)⟩

theorem putTag_moves (tag : CString) :
    b.Moves (putTag b o tag) (min b.most n) (min b.most (n + (tagText o tag).length)) := by
  unfold putTag tagText
  cases o.tag with
  | false => exact Moves.refl
  | true =>
    simp only [if_true, List.length_append, ← Nat.add_assoc]
    exact (append_if (o.level = false ∧ o.time ≠ .off) [0x20]).trans (append_cut tag.text)

theorem nameLen_le (name : List UInt8) : nameLen name ≤ rtNameMax ∧ nameLen name ≤ name.length := by
  have front := (List.takeWhile_sublist (· ≠ 0) (l := name.take rtNameMax)).length_le
  rw [List.length_take] at front
  unfold nameLen
  omega

theorem putName_eq (name : List UInt8) (memory : Memory) :
    putName b name ⟨UInt32.ofNat n, memory⟩ =
      ⟨UInt32.ofNat (n + nameLen name), (textAt (b.logBuf + UInt32.ofNat n) (name.take (nameLen name))).apply memory⟩ := by
  have length := nameLen_le name
  have most : rtNameMax = 8 := rfl
  unfold putName
  simp only [rtStrncpy_eq _ name _ _ length.2 (by omega), UInt32.ofNat_add]

theorem putName_moves (name : List UInt8) (fits : nameLen name = 0 ∨ n + nameLen name ≤ b.most) :
    b.Moves (putName b name) (min b.most n) (min b.most (n + nameLen name)) := by
  have length : (name.take (nameLen name)).length = nameLen name := by
    rw [List.length_take]
    exact Nat.min_eq_left (nameLen_le name).2
  have next : min b.most n + nameLen name = min b.most (n + nameLen name) := by omega
  refine ⟨_, fun memory => by rw [putName_eq, next], fun a sets => textAt_inside ?_ sets⟩
  rw [length]
  omega

theorem gap_moves (named : o.threadName = true) :
    b.Moves (fun line => if o.time ≠ .off ∨ o.level ∨ o.tag then append b [0x20] line else line) (min b.most n)
      (min b.most (n + (gapText o).length)) := by
  unfold gapText
  rw [if_pos named]
  exact append_if _ _

theorem putThread_moves {thread : Option (List UInt8)}
    (fits : o.threadName → ∀ name, thread = some name → nameLen name = 0 ∨ n + (gapText o).length + nameLen name ≤ b.most) :
    b.Moves (putThread b o thread) (min b.most n)
      (min b.most (n + (gapText o).length + (threadText o thread).length)) := by
  cases named : o.threadName with
  | false =>
    unfold putThread gapText threadText
    simp only [named, if_neg Bool.false_ne_true]
    exact Moves.refl
  | true =>
    have gap := gap_moves (b := b) (n := n) named
    unfold putThread threadText
    simp only [named, if_true]
    cases thread with
    | none => exact gap.trans (append_cut (ascii "ISR"))
    | some name =>
      have length : (name.take (nameLen name)).length = nameLen name := by
        rw [List.length_take]
        exact Nat.min_eq_left (nameLen_le name).2
      simp only [length]
      exact gap.trans (putName_moves name (fits named name rfl))

/-! ## The head as a whole -/

/-- From whatever memory, the call makes a line of that length, and sets the cells of the patch. -/
def Writes (call : Memory → Option Line) (len : UInt32) (p : Patch UInt32 UInt8) : Prop :=
  ∀ memory, call memory = some ⟨len, p.apply memory⟩

/-- The call makes a line of length `n` and writes inside the buffer only. -/
def LineBuf.Makes (b : LineBuf) (call : Memory → Option Line) (n : Nat) : Prop :=
  ∃ p, Writes call (UInt32.ofNat n) p ∧ ∀ a, p.Sets a → b.Inside a

variable {call : Memory → Option Line} {step : Line → Line}

theorem Writes.map {len len' : UInt32} {p q : Patch UInt32 UInt8} (writes : Writes call len p)
    (next : ∀ memory, step ⟨len, memory⟩ = ⟨len', q.apply memory⟩) :
    Writes (fun memory => (call memory).map step) len' (q.after p) := by
  intro memory
  change (call memory).map step = _
  rw [writes, Option.map_some, next, Patch.apply_after]

theorem LineBuf.Makes.map {n' : Nat} (makes : b.Makes call n) (moves : b.Moves step n n') :
    b.Makes (fun memory => (call memory).map step) n' := by
  obtain ⟨p, writes, inside⟩ := makes
  obtain ⟨q, next, inside'⟩ := moves
  refine ⟨q.after p, writes.map next, fun a sets => ?_⟩
  rcases Patch.sets_after.mp sets with late | early
  · exact inside' a late
  · exact inside a early

variable {now : UlogNow} {level : Nat} {tag : CString}

def frontOf (b : LineBuf) (o : UlogOptions) (now : UlogNow) (level : Nat) (tag : CString) (memory : Memory) : Option Line :=
  (putLevel b o level (putTime b o now (putColor b o level { len := 0, memory }))).map (putTag b o tag)

theorem ulogHeadFormater_eq (thread : Option (List UInt8)) (small : level ≤ logLvlDbg) (memory : Memory) :
    ulogHeadFormater b o now thread level tag memory =
      (frontOf b o now level tag memory).map fun line => append b (ascii ": ") (putThread b o thread line) := by
  unfold ulogHeadFormater frontOf
  rw [if_pos small, Option.map_map]
  rfl

def frontLength (b : LineBuf) (o : UlogOptions) (now : UlogNow) (level : Nat) (tag : CString) : Nat :=
  (colorText o level).length + (timeText b o now (colorText o level).length).length + (levelText o level).length +
    (tagText o tag).length

theorem headText_length :
    (headText b o now level tag).length = frontLength b o now level tag + (gapText o).length := by
  simp only [headText, frontLength, List.length_append]

theorem front_makes (now : UlogNow) (tag : CString) (known : o.level → (levelOutputInfo level).isSome) :
    b.Makes (frontOf b o now level tag) (min b.most (frontLength b o now level tag)) := by
  have color := putColor_moves (b := b) o level
  obtain ⟨time, inside⟩ := putTime_moves (b := b) (o := o) now (colorText_length o level)
  obtain ⟨put, isPut, named⟩ := putLevel_moves (b := b) (o := o)
    (n := (colorText o level).length + (timeText b o now (colorText o level).length).length) known
  rw [Nat.min_eq_right inside] at named
  obtain ⟨p, all, sets⟩ := ((color.trans time).trans named).trans (putTag_moves tag)
  refine ⟨p, fun memory => ?_, sets⟩
  unfold frontOf
  rw [isPut, Option.map_some]
  exact congrArg some (all memory)

theorem head_makes (thread : Option (List UInt8)) (known : LevelKnown o level) (fits : NameFits b o now thread level tag) :
    b.Makes (ulogHeadFormater b o now thread level tag) (startOf b o now thread level tag) := by
  have moves : b.Moves (fun line => append b (ascii ": ") (putThread b o thread line))
      (min b.most (frontLength b o now level tag)) (startOf b o now thread level tag) := by
    rw [startOf, headText_length]
    refine (putThread_moves fun named name isName => ?_).trans (append_cut (ascii ": "))
    have room := fits named name isName
    rwa [headText_length] at room
  obtain ⟨p, writes, inside⟩ := (front_makes now tag known.2).map moves
  exact ⟨p, fun memory => by rw [ulogHeadFormater_eq thread known.1]; exact writes memory, inside⟩

theorem head_overlong {thread : Option (List UInt8)} (known : LevelKnown o level)
    (unfit : ¬NameFits b o now thread level tag) :
    ∃ m p, b.most < m ∧ m ≤ b.most + rtNameMax ∧ Writes (ulogHeadFormater b o now thread level tag) (UInt32.ofNat m) p := by
  unfold NameFits at unfit
  push Not at unfit
  obtain ⟨named, name, isName, some, past⟩ := unfit
  have length := nameLen_le name
  have most := b.most_lt
  have eight : rtNameMax = 8 := rfl
  rw [headText_length] at past
  obtain ⟨p, front, inside⟩ := front_makes (b := b) now tag known.2
  obtain ⟨q, gap, inside'⟩ := gap_moves (b := b) (n := frontLength b o now level tag) named
  obtain ⟨start, isStart⟩ : ∃ start, start = min b.most (frontLength b o now level tag + (gapText o).length) := ⟨_, rfl⟩
  rw [← isStart] at gap
  have stop (memory : Memory) : append b (ascii ": ") ⟨UInt32.ofNat (start + nameLen name), memory⟩ =
      ⟨UInt32.ofNat (start + nameLen name), (Patch.empty : Patch UInt32 UInt8).apply memory⟩ := by
    rw [append_eq b (by omega), Nat.sub_eq_zero_of_le (by omega)]
    rfl
  have spaced : Writes (fun memory => (frontOf b o now level tag memory).map fun line =>
      if o.time ≠ .off ∨ o.level ∨ o.tag then append b [0x20] line else line) (UInt32.ofNat start) (q.after p) :=
    front.map gap
  have all := (spaced.map (putName_eq (b := b) name)).map stop
  have same : ulogHeadFormater b o now thread level tag = fun memory =>
      Option.map (append b (ascii ": ")) (Option.map (putName b name) (Option.map
        (fun line => if o.time ≠ .off ∨ o.level ∨ o.tag then append b [0x20] line else line)
        (frontOf b o now level tag memory))) := by
    funext memory
    rw [ulogHeadFormater_eq thread known.1]
    simp only [Option.map_map]
    congr 1
    funext line
    simp only [Function.comp, putThread, named, if_true, isName]
  rw [same]
  exact ⟨_, _, by omega, by omega, all⟩

end head

end RtThread.Ulog
