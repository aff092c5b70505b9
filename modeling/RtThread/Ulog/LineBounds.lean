import RtThread.Kservice.Writes
import RtThread.Ulog.Format

/-! When a line of `ulog` stays in its buffer. -/

set_option autoImplicit false
namespace RtThread.Ulog
open Kservice Lib
open Function (update)

/-- ULOG_LINE_BUF_SIZE -/
def LineBuf.most (b : LineBuf) : Nat := b.lineBufSize.toNat

def LineBuf.Inside (b : LineBuf) (a : UInt32) : Prop := b.logBuf.toNat ≤ a.toNat ∧ a.toNat ≤ b.logBuf.toNat + b.most

def ending (o : UlogOptions) (newline : Bool) (level : Nat) : List UInt8 :=
  (if newline then newlineSign else []) ++ if o.color ∧ (colorOutputInfo level).isSome then csiEnd else []

/-- From whatever memory, the call returns; it changes bytes of the line buffer only, and the line has a length within the
size of the buffer, a NUL behind it and the ending at its end. -/
def LineBuf.Sound (b : LineBuf) (ending : List UInt8) (call : Memory → Option Line) : Prop :=
  ∀ memory, ∃ line, call memory = some line ∧ (∀ a, line.memory a ≠ memory a → b.Inside a) ∧ line.len.toNat ≤ b.most ∧
    line.memory (b.logBuf + line.len) = 0 ∧
    ∃ start, start + ending.length = line.len.toNat ∧ Stores line.memory (b.logBuf + UInt32.ofNat start) ending

/-! ## Texts in memory -/

/-- The characters of a text from `dst` on -/
def textAt (dst : UInt32) (text : List UInt8) : Patch UInt32 UInt8 := fun a => text[(a - dst).toNat]?

theorem textAt_sets {dst a : UInt32} {text : List UInt8} : (textAt dst text).Sets a ↔ (a - dst).toNat < text.length := by
  simp [Patch.Sets, textAt]

theorem sub_next {dst a : UInt32} (other : a ≠ dst) : (a - dst).toNat = (a - (dst + 1)).toNat + 1 := by
  have apart : a.toNat ≠ dst.toNat := fun same => other (UInt32.toNat_inj.mp same)
  have bound := dst.toNat_lt
  have bound' := a.toNat_lt
  rw [UInt32.toNat_sub, UInt32.toNat_sub, UInt32.toNat_add, UInt32.toNat_one]
  omega

theorem textAt_cons {dst : UInt32} {ch : UInt8} {rest : List UInt8} {memory : Memory} (short : rest.length < 2 ^ 32) :
    (textAt (dst + 1) rest).apply (update memory dst ch) = (textAt dst (ch :: rest)).apply memory := by
  funext a
  unfold Patch.apply textAt
  by_cases own : a = dst
  · have last : (dst - (dst + 1)).toNat = 2 ^ 32 - 1 := by
      have bound := dst.toNat_lt
      rw [UInt32.toNat_sub, UInt32.toNat_add, UInt32.toNat_one]
      omega
    rw [own, last, UInt32.sub_self, List.getElem?_eq_none (by omega), Option.getD_none, Function.update_self]
    rfl
  · rw [sub_next own, List.getElem?_cons_succ, Function.update_of_ne own]

theorem rtStrncpy_eq (dst : UInt32) (src : List UInt8) (n : Nat) (memory : Memory) (enough : n ≤ src.length)
    (short : n < 2 ^ 32) : rtStrncpy dst src n memory = (textAt dst (src.take n)).apply memory := by
  induction n generalizing dst src memory with
  | zero => rfl
  | succ n ih =>
    cases src with
    | nil => cases enough
    | cons ch rest =>
      rw [List.length_cons] at enough
      rw [rtStrncpy, List.tail_cons, List.headD_cons, ih _ _ _ (by omega) (by omega), List.take_succ_cons]
      refine textAt_cons ?_
      rw [List.length_take]
      omega

section buffer
variable {b : LineBuf} {n : Nat} {text : List UInt8} {a : UInt32}

theorem LineBuf.most_lt (b : LineBuf) : b.most < 65536 := by
  have sram := b.sram
  unfold LineBuf.most
  omega

theorem LineBuf.most_ge (b : LineBuf) : 80 ≤ b.most := b.least

theorem ofNat_toNat (small : n < 2 ^ 32) : (UInt32.ofNat n).toNat = n := UInt32.toNat_ofNat_of_lt' small

theorem LineBuf.place (b : LineBuf) (small : n < 0x10000000) :
    (b.logBuf + UInt32.ofNat n).toNat = b.logBuf.toNat + n := by
  have sram := b.sram
  rw [UInt32.toNat_add, ofNat_toNat (by omega)]
  omega

theorem LineBuf.index (b : LineBuf) (small : n < 0x10000000) :
    (a - (b.logBuf + UInt32.ofNat n)).toNat = if b.logBuf.toNat + n ≤ a.toNat then a.toNat - (b.logBuf.toNat + n)
      else 2 ^ 32 - (b.logBuf.toNat + n) + a.toNat := by
  have bound := a.toNat_lt
  have sram := b.sram
  rw [UInt32.toNat_sub, b.place small]
  split <;> omega

theorem textAt_inside (fits : n + text.length ≤ b.most + 1) (sets : (textAt (b.logBuf + UInt32.ofNat n) text).Sets a) :
    b.Inside a := by
  have most := b.most_lt
  have sram := b.sram
  have small := b.most_ge
  rw [textAt_sets, b.index (by omega)] at sets
  split at sets
  · unfold LineBuf.Inside
    omega
  · omega

theorem ulogStrcpy_eq (b : LineBuf) (n : Nat) (dst : UInt32) (src : List UInt8) (memory : Memory) (small : n < 2 ^ 32) :
    ulogStrcpy b (UInt32.ofNat n) dst src memory =
      (UInt32.ofNat (src.take (b.most - n)).length, (textAt dst (src.take (b.most - n))).apply memory) := by
  induction src generalizing n dst memory with
  | nil => rw [List.take_nil]; rfl
  | cons ch rest ih =>
    have order : UInt32.ofNat n < b.lineBufSize ↔ n < b.most := by
      rw [UInt32.lt_iff_toNat_lt, ofNat_toNat small]
      rfl
    have most := b.most_lt
    rw [ulogStrcpy]
    by_cases room : n < b.most
    · have next : UInt32.ofNat n + 1 = UInt32.ofNat (n + 1) := by rw [UInt32.ofNat_add]; rfl
      obtain ⟨k, left⟩ : ∃ k, b.most - n = k + 1 := ⟨b.most - n - 1, by omega⟩
      have left' : b.most - (n + 1) = k := by omega
      have short : (rest.take k).length < 2 ^ 32 := by
        rw [List.length_take]
        omega
      rw [if_pos (order.mpr room), next, ih _ _ _ (by omega), left, left', List.take_succ_cons]
      simp only [textAt_cons short, List.length_cons, Prod.mk.injEq, and_true]
      rw [UInt32.ofNat_add]
      rfl
    · rw [if_neg (fun less => room (order.mp less)), Nat.sub_eq_zero_of_le (Nat.le_of_not_lt room), List.take_zero]
      rfl

end buffer

/-! ## Steps inside the buffer -/

/-- The step takes a line of length `n` to one of length `n'`, and writes only inside the buffer. -/
def LineBuf.Moves (b : LineBuf) (step : Line → Line) (n n' : Nat) : Prop :=
  ∃ p : Patch UInt32 UInt8, (∀ memory, step ⟨UInt32.ofNat n, memory⟩ = ⟨UInt32.ofNat n', p.apply memory⟩) ∧
    ∀ a, p.Sets a → b.Inside a

section moves
variable {b : LineBuf} {n n' n'' : Nat} {step next : Line → Line} {text : List UInt8}

theorem Moves.refl : b.Moves id n n := ⟨.empty, fun _ => rfl, fun _ sets => (Patch.not_sets_empty sets).elim⟩

theorem LineBuf.Moves.trans (first : b.Moves step n n') (second : b.Moves next n' n'') :
    b.Moves (fun line => next (step line)) n n'' := by
  obtain ⟨p, isP, inside⟩ := first
  obtain ⟨q, isQ, inside'⟩ := second
  refine ⟨q.after p, fun memory => ?_, fun a sets => ?_⟩
  · change next (step _) = _
    rw [isP, isQ, Patch.apply_after]
  · rcases Patch.sets_after.mp sets with late | early
    · exact inside' a late
    · exact inside a early

theorem append_eq (b : LineBuf) (small : n < 2 ^ 32) (text : List UInt8) (memory : Memory) :
    append b text ⟨UInt32.ofNat n, memory⟩ = ⟨UInt32.ofNat (n + (text.take (b.most - n)).length),
      (textAt (b.logBuf + UInt32.ofNat n) (text.take (b.most - n))).apply memory⟩ := by
  unfold append
  simp only [ulogStrcpy_eq b n _ _ _ small, UInt32.ofNat_add]

theorem append_moves (inside : n ≤ b.most) (text : List UInt8) : b.Moves (append b text) n (min b.most (n + text.length)) := by
  have most := b.most_lt
  have length : n + (text.take (b.most - n)).length = min b.most (n + text.length) := by
    rw [List.length_take]
    omega
  refine ⟨_, fun memory => by rw [append_eq b (by omega), length], fun a sets => textAt_inside ?_ sets⟩
  omega

theorem store_moves (i : Nat) (inside : i ≤ b.most) (ch : UInt8) : b.Moves (store b (UInt32.ofNat i) ch) n n := by
  have most := b.most_lt
  refine ⟨.cell (b.logBuf + UInt32.ofNat i) ch, fun memory => ?_, fun a sets => ?_⟩
  · rw [Patch.apply_cell]
    rfl
  · rw [Patch.sets_cell.mp sets]
    unfold LineBuf.Inside
    rw [b.place (by omega)]
    omega

/-! ## The head -/

def colorText (o : UlogOptions) (level : Nat) : List UInt8 :=
  if o.color then
    match colorOutputInfo level with
    | some info => csiStart ++ info
    | none => []
  else []

theorem colorInfo_length {level : Nat} {info : List UInt8} (known : colorOutputInfo level = some info) : info.length = 3 := by
  unfold colorOutputInfo at known
  split at known <;> cases known <;> decide

theorem colorText_length (o : UlogOptions) (level : Nat) : (colorText o level).length ≤ 5 := by
  unfold colorText
  split
  · cases known : colorOutputInfo level with
    | none => exact Nat.zero_le _
    | some info =>
      rw [List.length_append, colorInfo_length known]
      decide
  · exact Nat.zero_le _

theorem putColor_moves (o : UlogOptions) (level : Nat) : b.Moves (putColor b o level) 0 (colorText o level).length := by
  have most := b.most_ge
  have ends {step : Line → Line} {k : Nat} (moves : b.Moves step 0 k) (inside : k ≤ b.most) :
      b.Moves (fun line => store b (step line).len 0 (step line)) 0 k := by
    obtain ⟨p, isP, sets⟩ := moves.trans (store_moves (n := k) k inside 0)
    obtain ⟨q, isQ, _⟩ := moves
    refine ⟨p, fun memory => ?_, sets⟩
    rw [← isP memory]
    simp only [isQ]
  have nothing : b.Moves (fun line => line) 0 0 := Moves.refl
  unfold putColor colorText
  cases o.color with
  | false => exact ends nothing (Nat.zero_le _)
  | true =>
    simp only [if_true]
    cases info : colorOutputInfo level with
    | none => exact ends nothing (Nat.zero_le _)
    | some text =>
      have start' : csiStart.length = 2 := by decide
      have short := colorInfo_length info
      rw [List.length_append]
      have start := append_moves (b := b) (Nat.zero_le _) csiStart
      rw [Nat.zero_add, Nat.min_eq_right (by omega)] at start
      have both := start.trans (append_moves (by omega) text)
      rw [Nat.min_eq_right (by omega)] at both
      exact ends both (by omega)

theorem Stores.cons {memory : Memory} {a : UInt32} {ch : UInt8} {rest : List UInt8} (stores : Stores memory a (ch :: rest)) :
    memory a = ch ∧ Stores memory (a + 1) rest := by
  constructor
  · have first := stores 0 ch rfl
    rwa [show a + UInt32.ofNat 0 = a from UInt32.add_zero a] at first
  · intro i byte isByte
    have later := stores (i + 1) byte isByte
    rwa [Nat.add_comm i 1, UInt32.ofNat_add, ← UInt32.add_assoc] at later

theorem rtStrlen_eq {memory : Memory} {a : UInt32} (s : List UInt8) (stores : Stores memory a (s ++ [0])) (fuel : Nat)
    (enough : s.length < fuel) : rtStrlen memory fuel a = UInt32.ofNat (s.takeWhile (· ≠ 0)).length := by
  induction s generalizing a fuel with
  | nil =>
    obtain ⟨fuel, rfl⟩ : ∃ k, fuel = k + 1 := ⟨fuel - 1, by simp at enough; omega⟩
    rw [rtStrlen, if_pos (Stores.cons stores).1]
    rfl
  | cons ch rest ih =>
    obtain ⟨fuel, rfl⟩ : ∃ k, fuel = k + 1 := ⟨fuel - 1, by simp at enough; omega⟩
    rw [List.length_cons] at enough
    obtain ⟨first, behind⟩ := Stores.cons stores
    rw [rtStrlen, first]
    by_cases nul : ch = 0
    · rw [if_pos nul, nul, List.takeWhile_cons_of_neg (by simp)]
      rfl
    · rw [if_neg nul, ih behind fuel (by omega), List.takeWhile_cons_of_pos (by simpa using nul), List.length_cons,
        Nat.add_comm, UInt32.ofNat_add]
      rfl

theorem measure_eq {memory : Memory} (s : List UInt8) (short : s.length < 2 ^ 32)
    (stores : Stores memory (b.logBuf + UInt32.ofNat n) (s ++ [0])) :
    measure b ⟨UInt32.ofNat n, memory⟩ = ⟨UInt32.ofNat (n + (s.takeWhile (· ≠ 0)).length), memory⟩ := by
  unfold measure
  simp only [rtStrlen_eq s stores _ short, UInt32.ofNat_add]

theorem room_eq (inside : n ≤ b.most) : b.lineBufSize - UInt32.ofNat n = UInt32.ofNat (b.most - n) := by
  have most := b.most_lt
  rw [← UInt32.toNat_inj, UInt32.toNat_sub_of_le, ofNat_toNat (by omega), ofNat_toNat (by omega)]
  · rfl
  · rw [UInt32.le_iff_toNat_le, ofNat_toNat (by omega)]
    exact inside

theorem truncates_room (less : n < b.most) {fmt : CString} {args : VaList} (short : (complete args fmt).length < 2 ^ 31) :
    Truncates (b.logBuf + UInt32.ofNat n) (UInt32.ofNat (b.most - n)) fmt args := by
  have most := b.most_lt
  have sram := b.sram
  apply truncates_of_fits
  refine ⟨short, ?_⟩
  rw [b.place (by omega), ofNat_toNat (by omega), if_neg (by omega), if_pos (by omega)]
  omega

theorem printed_moves (less : n < b.most) {fmt : CString} {args : VaList} (short : (complete args fmt).length < 2 ^ 31) :
    b.Moves (fun line => measure b (print b (b.lineBufSize - line.len) fmt args line).2) n
      (n + (printed (b.most - n) fmt args).length) := by
  have most := b.most_lt
  have truncates := truncates_room less short
  refine ⟨printPatch (b.logBuf + UInt32.ofNat n) (UInt32.ofNat (b.most - n)) fmt args, fun memory => ?_, fun a sets => ?_⟩
  · have stores := truncates.text (by rw [ofNat_toNat (by omega)]; omega) memory
    rw [ofNat_toNat (by omega), rtVsnprintf_eq] at stores
    unfold print
    simp only [room_eq (Nat.le_of_lt less), rtVsnprintf_eq]
    refine measure_eq _ ?_ stores
    rw [List.length_take]
    omega
  · obtain ⟨memory, changed⟩ := exists_changed sets
    have inside := truncates.inside memory a (by rw [rtVsnprintf_eq]; exact changed)
    rw [b.place (by omega), ofNat_toNat (by omega)] at inside
    unfold LineBuf.Inside
    omega

theorem printed_length (size : Nat) (fmt : CString) (args : VaList) : (printed size fmt args).length ≤ size - 1 := by
  refine Nat.le_trans (List.takeWhile_sublist _).length_le ?_
  rw [List.length_take]
  exact Nat.min_le_left _ _

theorem ultoaDigits_spec (n : UInt32) (k : Nat) (below : n.toNat < 2 ^ k) (some : 0 < k) :
    (∀ ch ∈ ultoaDigits n, ch ≠ 0) ∧ (ultoaDigits n).length ≤ k := by
  induction k generalizing n with
  | zero => cases some
  | succ k ih =>
    have ten : (10 : UInt32).toNat = 10 := rfl
    have digit : (n % 10).toUInt8 + '0'.toUInt8 ≠ 0 := by
      intro zero
      have value := congrArg UInt8.toNat zero
      have small : n.toNat % 10 < 10 := Nat.mod_lt _ (by decide)
      rw [UInt8.toNat_add, UInt32.toNat_toUInt8, UInt32.toNat_mod, ten, show '0'.toUInt8.toNat = 48 from rfl,
        show (0 : UInt8).toNat = 0 from rfl] at value
      omega
    rw [ultoaDigits]
    split
    case isTrue =>
      refine ⟨fun ch member => ?_, ?_⟩
      · rw [List.mem_singleton.mp member]
        exact digit
      · rw [List.length_singleton]
        omega
    case isFalse more =>
      have next : (n / 10).toNat = n.toNat / 10 := by rw [UInt32.toNat_div, ten]
      have positive : 0 < (n / 10).toNat := Nat.pos_of_ne_zero fun zero => more (UInt32.toNat_inj.mp zero)
      rw [Nat.pow_succ] at below
      have half : (n / 10).toNat < 2 ^ k := by omega
      have left : 0 < k := by
        rcases Nat.eq_zero_or_pos k with rfl | left
        · rw [Nat.pow_zero] at half
          omega
        · exact left
      obtain ⟨others, length⟩ := ih (n / 10) half left
      refine ⟨fun ch member => ?_, Nat.succ_le_succ length⟩
      rcases List.mem_cons.mp member with own | behind
      · rw [own]
        exact digit
      · exact others ch behind

def tickText (tick : UInt32) : List UInt8 := '['.toUInt8 :: (ultoaDigits tick).reverse ++ [']'.toUInt8]

theorem LineBuf.place_inj (b : LineBuf) {i j : Nat} (small : i < 0x10000000) (small' : j < 0x10000000) :
    b.logBuf + UInt32.ofNat i = b.logBuf + UInt32.ofNat j ↔ i = j := by
  rw [← UInt32.toNat_inj, b.place small, b.place small']
  exact Nat.add_left_cancel_iff

theorem LineBuf.place_add (b : LineBuf) (i j : Nat) :
    b.logBuf + UInt32.ofNat i + UInt32.ofNat j = b.logBuf + UInt32.ofNat (i + j) := by
  rw [UInt32.ofNat_add, UInt32.add_assoc]

theorem textAt_place {i : Nat} (small : n < 0x10000000) (small' : i < 0x10000000) (memory : Memory)
    (short : text.length < 0x10000000) :
    (textAt (b.logBuf + UInt32.ofNat n) text).apply memory (b.logBuf + UInt32.ofNat i) =
      if n ≤ i then (text[i - n]?).getD (memory (b.logBuf + UInt32.ofNat i)) else memory (b.logBuf + UInt32.ofNat i) := by
  have sram := b.sram
  unfold Patch.apply textAt
  rw [b.index small, b.place small']
  by_cases le : n ≤ i
  · rw [if_pos (by omega), if_pos le, show b.logBuf.toNat + i - (b.logBuf.toNat + n) = i - n by omega]
  · rw [if_neg (by omega), if_neg le, List.getElem?_eq_none (by omega)]
    rfl

theorem tick_stores (digits : List UInt8) (few : digits.length ≤ 32) (short : n ≤ 5) (memory : Memory) :
    Stores (update (update ((textAt (b.logBuf + UInt32.ofNat (n + 1)) (digits ++ [0])).apply
        (update memory (b.logBuf + UInt32.ofNat n) '['.toUInt8))
      (b.logBuf + UInt32.ofNat (n + 1 + digits.length)) ']'.toUInt8)
      (b.logBuf + UInt32.ofNat (n + 1 + digits.length + 1)) 0) (b.logBuf + UInt32.ofNat n)
      ('['.toUInt8 :: digits ++ [']'.toUInt8] ++ [0]) := by
  intro i byte isByte
  have inside := (List.getElem?_eq_some_iff.mp isByte).1
  simp only [List.length_append, List.length_cons, List.length_nil] at inside
  have apart (j : Nat) (small : j < 0x10000000) (other : i ≠ j - n) (above : n ≤ j) :
      b.logBuf + UInt32.ofNat (n + i) ≠ b.logBuf + UInt32.ofNat j := fun same => by
    have := (b.place_inj (by omega) small).mp same
    omega
  rw [b.place_add]
  by_cases nul : i = digits.length + 2
  · rw [show n + 1 + digits.length + 1 = n + i by omega, Function.update_self]
    rw [nul] at isByte
    simpa using isByte
  rw [Function.update_of_ne (apart _ (by omega) (by omega) (by omega))]
  by_cases close : i = digits.length + 1
  · rw [show n + 1 + digits.length = n + i by omega, Function.update_self]
    rw [close] at isByte
    simpa using isByte
  rw [Function.update_of_ne (apart _ (by omega) (by omega) (by omega)),
    textAt_place (by omega) (by omega) _ (by simp; omega)]
  rcases Nat.eq_zero_or_pos i with rfl | later
  · rw [if_neg (by omega), show n + 0 = n from rfl, Function.update_self]
    simpa using isByte
  · have within : i - 1 < digits.length := by omega
    rw [if_pos (by omega), show n + i - (n + 1) = i - 1 by omega, List.getElem?_append_left within,
      List.getElem?_eq_getElem within, Option.getD_some]
    rw [show i = i - 1 + 1 by omega] at isByte
    simpa only [List.cons_append, List.getElem?_cons_succ, List.append_assoc, List.getElem?_append_left within,
      List.getElem?_eq_getElem within, Option.some.injEq] using isByte

theorem whole_of_noNul (noNul : ∀ ch ∈ text, ch ≠ 0) : text.takeWhile (· ≠ 0) = text := by
  induction text with
  | nil => rfl
  | cons ch rest ih =>
    have first := noNul ch (List.mem_cons_self ..)
    rw [List.takeWhile_cons_of_pos (by simpa using first), ih fun c member => noNul c (List.mem_cons_of_mem _ member)]

theorem putTick_moves (o : UlogOptions) (ticks : o.time = .tick) (now : UlogNow) (short : n ≤ 5) :
    b.Moves (putTime b o now) n (n + (tickText now.tick).length) := by
  have most := b.most_ge
  have most' := b.most_lt
  have sram := b.sram
  obtain ⟨noNul, few⟩ := ultoaDigits_spec now.tick 32 now.tick.toNat_lt (by decide)
  obtain ⟨digits, isDigits⟩ : ∃ digits, digits = (ultoaDigits now.tick).reverse := ⟨_, rfl⟩
  have few' : digits.length ≤ 32 := by rw [isDigits, List.length_reverse]; exact few
  have text : tickText now.tick = '['.toUInt8 :: digits ++ [']'.toUInt8] := by rw [tickText, isDigits]
  have whole : (tickText now.tick).takeWhile (· ≠ 0) = tickText now.tick := by
    apply whole_of_noNul
    rw [text]
    intro ch member
    simp only [List.cons_append, List.mem_cons, List.mem_append, List.not_mem_nil, or_false] at member
    rcases member with rfl | digit | rfl
    · decide
    · rw [isDigits, List.mem_reverse] at digit
      exact noNul ch digit
    · decide
  have one (i : Nat) : UInt32.ofNat i + 1 = UInt32.ofNat (i + 1) := by rw [UInt32.ofNat_add]; rfl
  refine ⟨((Patch.cell (b.logBuf + UInt32.ofNat (n + 1 + digits.length + 1)) 0).after
    (Patch.cell (b.logBuf + UInt32.ofNat (n + 1 + digits.length)) ']'.toUInt8)).after
      ((textAt (b.logBuf + UInt32.ofNat (n + 1)) (digits ++ [0])).after
        (Patch.cell (b.logBuf + UInt32.ofNat n) '['.toUInt8)), fun memory => ?_, fun a sets => ?_⟩
  · have stores := tick_stores (b := b) digits few' short memory
    rw [← text] at stores
    have measured := measure_eq (tickText now.tick) (by rw [text]; simp; omega) stores
    rw [whole] at measured
    have digitsAt : rtStrncpy (b.logBuf + UInt32.ofNat (n + 1)) (digits ++ [0]) (digits.length + 1)
        (update memory (b.logBuf + UInt32.ofNat n) '['.toUInt8) =
          (textAt (b.logBuf + UInt32.ofNat (n + 1)) (digits ++ [0])).apply
            (update memory (b.logBuf + UInt32.ofNat n) '['.toUInt8) := by
      rw [rtStrncpy_eq _ _ _ _ (by simp) (by omega), List.take_of_length_le (by simp)]
    rw [Patch.apply_after, Patch.apply_after, Patch.apply_after, Patch.apply_cell, Patch.apply_cell, Patch.apply_cell,
      ← measured]
    unfold putTime store ulogUltoa
    simp only [ticks, ← isDigits, UInt32.add_assoc _ _ 1, one]
    rw [digitsAt, ← UInt32.ofNat_add, ← UInt32.ofNat_add, Nat.add_assoc (n + 1)]
  · simp only [Patch.sets_after, Patch.sets_cell] at sets
    unfold LineBuf.Inside
    rcases sets with (rfl | rfl) | digit | rfl
    · rw [b.place (by omega)]
      omega
    · rw [b.place (by omega)]
      omega
    · exact textAt_inside (by simp; omega) digit
    · rw [b.place (by omega)]
      omega

end moves

end RtThread.Ulog
