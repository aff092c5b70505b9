import RtThread.Ulog.LineHead

/-! The text or the bytes behind the head, the tail, and which lines stay in the buffer. -/

set_option autoImplicit false
namespace RtThread.Ulog
open Kservice Lib

/-! ## Steps that write what does not depend on the memory -/

def Patching (step : Line → Line) : Prop :=
  ∀ len, ∃ len' p, ∀ memory, step ⟨len, memory⟩ = ⟨len', Patch.apply p memory⟩

def LineBuf.Strays (b : LineBuf) (call : Memory → Option Line) : Prop :=
  ∃ len p, Writes call len p ∧ ∃ a, p.Sets a ∧ ¬b.Inside a

section patching
variable {b : LineBuf} {o : UlogOptions} {step next : Line → Line} {call : Memory → Option Line}

theorem Patching.refl : Patching fun line => line := fun len => ⟨len, .empty, fun _ => rfl⟩

theorem Patching.trans (first : Patching step) (second : Patching next) : Patching fun line => next (step line) := by
  intro len
  obtain ⟨len', p, isP⟩ := first len
  obtain ⟨len'', q, isQ⟩ := second len'
  refine ⟨len'', q.after p, fun memory => ?_⟩
  change next (step _) = _
  rw [isP, isQ, Patch.apply_after]

theorem Patching.ite {c : Prop} [Decidable c] (run : Patching step) : Patching fun line => if c then step line else line := by
  by_cases holds : c
  · simp only [if_pos holds]
    exact run
  · simp only [if_neg holds]
    exact Patching.refl

theorem ulogStrcpy_patch (b : LineBuf) (curLen dst : UInt32) (src : List UInt8) :
    ∃ n p, ∀ memory, ulogStrcpy b curLen dst src memory = (n, Patch.apply p memory) := by
  induction src generalizing curLen dst with
  | nil => exact ⟨0, .empty, fun _ => rfl⟩
  | cons ch rest ih =>
    obtain ⟨n, p, isP⟩ := ih (curLen + 1) (dst + 1)
    by_cases room : curLen < b.lineBufSize
    · refine ⟨n + 1, p.after (.cell dst ch), fun memory => ?_⟩
      rw [ulogStrcpy, if_pos room, isP, Patch.apply_after, Patch.apply_cell]
    · refine ⟨0, .empty, fun memory => ?_⟩
      rw [ulogStrcpy, if_neg room]
      rfl

theorem append_patching (text : List UInt8) : Patching (append b text) := by
  intro len
  obtain ⟨n, p, isP⟩ := ulogStrcpy_patch b len (b.logBuf + len) text
  refine ⟨len + n, p, fun memory => ?_⟩
  unfold append
  simp only [isP]

theorem putText_patch (fmt : CString) (args : VaList) (len : UInt32) :
    ∃ len', ∀ memory, putText b fmt args ⟨len, memory⟩ =
      ⟨len', (printPatch (b.logBuf + len) (b.lineBufSize - len) fmt args).apply memory⟩ := by
  unfold putText print
  simp only [rtVsnprintf_eq]
  split
  · exact ⟨_, fun _ => rfl⟩
  · exact ⟨_, fun _ => rfl⟩

theorem putAddress_patch (addr size : UInt32) (len : UInt32) :
    ∃ len', ∀ memory, putAddress b addr size ⟨len, memory⟩ =
      ⟨len', (printPatch (b.logBuf + len) b.lineBufSize addressFormat
        (numbers fun n => if n = 0 then addr else addr + size)).apply memory⟩ := by
  unfold putAddress print
  simp only [rtVsnprintf_eq]
  split
  · exact ⟨_, fun _ => rfl⟩
  · exact ⟨_, fun _ => rfl⟩

theorem tail_patching (newline : Bool) (level : Nat) : Patching (ulogTailFormater b o newline level) := by
  have cut : Patching fun line =>
      if line.len + reserve o > b.lineBufSize then { line with len := b.lineBufSize - reserve o } else line := by
    intro len
    by_cases past : len + reserve o > b.lineBufSize
    · exact ⟨_, .empty, fun _ => if_pos past⟩
    · exact ⟨_, .empty, fun _ => if_neg past⟩
  have nul : Patching fun line => store b line.len 0 line := by
    intro len
    refine ⟨len, .cell (b.logBuf + len) 0, fun memory => ?_⟩
    rw [Patch.apply_cell]
    rfl
  exact ((cut.trans (Patching.ite (append_patching newlineSign))).trans (Patching.ite (append_patching csiEnd))).trans nul

theorem dumpHex_patching (buf : UInt32 → UInt8) (size : UInt32) (turns : Nat) (j : UInt32) :
    Patching (dumpHex b buf size turns j) := by
  induction turns generalizing j with
  | zero => exact Patching.refl
  | succ turns ih => exact ((append_patching _).trans (Patching.ite (append_patching [0x20]))).trans (ih (j + 1))

theorem dumpChars_patching (buf : UInt32 → UInt8) (turns : Nat) (j : UInt32) : Patching (dumpChars b buf turns j) := by
  induction turns generalizing j with
  | zero => exact Patching.refl
  | succ turns ih => exact (append_patching _).trans (ih (j + 1))

theorem LineBuf.Strays.map (strays : b.Strays call) (patching : Patching step) :
    b.Strays fun memory => (call memory).map step := by
  obtain ⟨len, p, writes, a, sets, outside⟩ := strays
  obtain ⟨len', q, next⟩ := patching len
  exact ⟨len', q.after p, writes.map next, a, Patch.sets_after.mpr (Or.inr sets), outside⟩

theorem Writes.strays {len len' : UInt32} {p q : Patch UInt32 UInt8} (writes : Writes call len p)
    (next : ∀ memory, step ⟨len, memory⟩ = ⟨len', q.apply memory⟩) {a : UInt32} (sets : q.Sets a) (outside : ¬b.Inside a) :
    b.Strays fun memory => (call memory).map step :=
  ⟨len', q.after p, writes.map next, a, Patch.sets_after.mpr (Or.inl sets), outside⟩

theorem LineBuf.Strays.not_sound (strays : b.Strays call) (ending : List UInt8) : ¬b.Sound ending call := by
  intro sound
  obtain ⟨len, p, writes, a, sets, outside⟩ := strays
  obtain ⟨memory, changed⟩ := exists_changed sets
  obtain ⟨line, isLine, inside, _⟩ := sound memory
  rw [writes] at isLine
  cases isLine
  exact outside (inside a changed)

end patching

/-! ## The text -/

section text
variable {b : LineBuf} {n : Nat} {fmt : CString} {args : VaList}

/-- The cursor of `rt_vsnprintf` does not come round to the low addresses. -/
def LineBuf.Reaches (b : LineBuf) (n length : Nat) : Prop :=
  b.logBuf.toNat + n + length + (if n = b.most then 0 else 1) ≤ 2 ^ 32

theorem toInt32_ofNat (small : n < 2 ^ 31) : (UInt32.ofNat n).toInt32.toInt = n := by
  have number : (UInt32.ofNat n).toInt32.toInt = (BitVec.ofNat 32 n).toInt := rfl
  rw [number, BitVec.toInt_ofNat']
  exact Int.bmod_eq_of_le (by omega) (by omega)

theorem room_toNat (inside : n ≤ b.most) : (b.lineBufSize - UInt32.ofNat n).toNat = b.most - n := by
  have most := b.most_lt
  rw [room_eq inside, ofNat_toNat (by omega)]

theorem limit_place (inside : n ≤ b.most) :
    (limitOf (b.logBuf + UInt32.ofNat n) (b.lineBufSize - UInt32.ofNat n)).toNat = b.logBuf.toNat + b.most ∧
      usableSize (b.logBuf + UInt32.ofNat n) (b.lineBufSize - UInt32.ofNat n) = b.lineBufSize - UInt32.ofNat n := by
  have most := b.most_lt
  have sram := b.sram
  have place := b.place (n := n) (by omega)
  have room := room_toNat inside
  have flat : (b.logBuf + UInt32.ofNat n).toNat + (b.lineBufSize - UInt32.ofNat n).toNat < 2 ^ 32 := by
    rw [place, room]
    omega
  obtain ⟨limit, usable⟩ := limit_flat flat
  refine ⟨?_, usable⟩
  rw [limit, place, room]
  omega

theorem putText_inside (inside : n ≤ b.most) (reaches : b.Reaches n (complete args fmt).length) {a : UInt32}
    (sets : (printPatch (b.logBuf + UInt32.ofNat n) (b.lineBufSize - UInt32.ofNat n) fmt args).Sets a) : b.Inside a := by
  have most := b.most_lt
  have sram := b.sram
  have place := b.place (n := n) (by omega)
  obtain ⟨limit, usable⟩ := limit_place inside
  have room := room_toNat inside
  obtain ⟨buf, isBuf⟩ : ∃ buf, buf = b.logBuf + UInt32.ofNat n := ⟨_, rfl⟩
  unfold LineBuf.Reaches at reaches
  unfold LineBuf.Inside
  have far (i : Nat) (le : i ≤ (complete args fmt).length) (small : b.logBuf.toNat + n + i < 2 ^ 32) :
      (buf + UInt32.ofNat i).toNat = b.logBuf.toNat + n + i := by
    rw [UInt32.toNat_add, isBuf, place, ofNat_toNat (by omega)]
    omega
  rw [printPatch_sets, usable, ← isBuf] at sets
  rw [← isBuf] at limit
  rcases sets with ⟨some, rfl⟩ | ⟨less, i, within, rfl⟩
  · have some' := UInt32.lt_iff_toNat_lt.mp some
    rw [room, UInt32.toNat_zero] at some'
    rw [if_neg (by omega)] at reaches
    have last := far _ (Nat.le_refl _) (by omega)
    unfold nulAt
    split
    case isTrue less =>
      rw [UInt32.lt_iff_toNat_lt, limit] at less
      omega
    case isFalse =>
      rw [UInt32.toNat_sub, limit, UInt32.toNat_one]
      omega
  · rw [UInt32.lt_iff_toNat_lt, limit] at less
    have here := far i (Nat.le_of_lt within) (by split at reaches <;> omega)
    omega

theorem putText_moves (inside : n ≤ b.most) (reaches : b.Reaches n (complete args fmt).length) :
    b.Moves (putText b fmt args) n (min b.most (n + (complete args fmt).length)) := by
  have most := b.most_lt
  have sram := b.sram
  refine ⟨printPatch (b.logBuf + UInt32.ofNat n) (b.lineBufSize - UInt32.ofNat n) fmt args, fun memory => ?_,
    fun a sets => putText_inside inside reaches sets⟩
  unfold LineBuf.Reaches at reaches
  have small : n + (complete args fmt).length < 2 ^ 32 := by split at reaches <;> omega
  have sum : (UInt32.ofNat n + UInt32.ofNat (complete args fmt).length).toNat = n + (complete args fmt).length := by
    rw [← UInt32.ofNat_add, ofNat_toNat small]
  unfold putText print
  simp only [rtVsnprintf_eq, UInt32.toUInt32_toInt32]
  by_cases fits : n + (complete args fmt).length ≤ b.most
  · have order : UInt32.ofNat n + UInt32.ofNat (complete args fmt).length ≤ b.lineBufSize := by
      rw [UInt32.le_iff_toNat_le, sum]
      exact fits
    have positive : (UInt32.ofNat (complete args fmt).length).toInt32 > -1 := by
      rw [gt_iff_lt, Int32.lt_iff_toInt_lt, toInt32_ofNat (by omega)]
      exact Int.lt_of_lt_of_le (by decide) (Int.natCast_nonneg _)
    rw [if_pos ⟨order, positive⟩, Nat.min_eq_right fits, UInt32.ofNat_add]
  · have order : ¬UInt32.ofNat n + UInt32.ofNat (complete args fmt).length ≤ b.lineBufSize := by
      rw [UInt32.le_iff_toNat_le, sum]
      exact fits
    have size : b.lineBufSize = UInt32.ofNat b.most := by
      rw [← UInt32.toNat_inj, ofNat_toNat (by omega)]
      rfl
    rw [if_neg (fun both => order both.1), Nat.min_eq_left (by omega), ← size]

theorem zero_outside (b : LineBuf) : ¬b.Inside 0 := by
  have sram := b.sram
  unfold LineBuf.Inside
  rw [UInt32.toNat_zero]
  omega

theorem putText_wraps (inside : n ≤ b.most) (wraps : ¬b.Reaches n (complete args fmt).length) :
    (printPatch (b.logBuf + UInt32.ofNat n) (b.lineBufSize - UInt32.ofNat n) fmt args).Sets 0 := by
  have most := b.most_lt
  have sram := b.sram
  have place := b.place (n := n) (by omega)
  obtain ⟨limit, usable⟩ := limit_place inside
  have room := room_toNat inside
  obtain ⟨buf, isBuf⟩ : ∃ buf, buf = b.logBuf + UInt32.ofNat n := ⟨_, rfl⟩
  unfold LineBuf.Reaches at wraps
  have turn : buf + UInt32.ofNat (2 ^ 32 - (b.logBuf.toNat + n)) = 0 := by
    rw [← UInt32.toNat_inj, UInt32.toNat_add, isBuf, place, ofNat_toNat (by omega), UInt32.toNat_zero]
    omega
  rw [printPatch_sets, usable, ← isBuf]
  rw [← isBuf] at limit
  have low : 0 < limitOf buf (b.lineBufSize - UInt32.ofNat n) := by
    rw [UInt32.lt_iff_toNat_lt, limit, UInt32.toNat_zero]
    omega
  by_cases past : 2 ^ 32 < b.logBuf.toNat + n + (complete args fmt).length
  · exact Or.inr ⟨low, _, by omega, turn⟩
  · left
    have length : (complete args fmt).length = 2 ^ 32 - (b.logBuf.toNat + n) := by split at wraps <;> omega
    have other : n ≠ b.most := fun full => by
      rw [if_pos full] at wraps
      omega
    refine ⟨UInt32.lt_iff_toNat_lt.mpr ?_, ?_⟩
    · rw [room, UInt32.toNat_zero]
      omega
    · rw [nulAt, length, turn, if_pos low]

theorem putText_behind (past : b.most < n) (near : n ≤ b.most + rtNameMax) :
    (printPatch (b.logBuf + UInt32.ofNat n) (b.lineBufSize - UInt32.ofNat n) fmt args).Sets (b.logBuf + UInt32.ofNat n) := by
  have most := b.most_lt
  have sram := b.sram
  have eight : rtNameMax = 8 := rfl
  have place := b.place (n := n) (by omega)
  have room : (b.lineBufSize - UInt32.ofNat n).toNat = 2 ^ 32 + b.most - n := by
    have size : b.lineBufSize.toNat = b.most := rfl
    rw [UInt32.toNat_sub, ofNat_toNat (by omega), size]
    omega
  have wraps : ¬(b.logBuf + UInt32.ofNat n).toNat + (b.lineBufSize - UInt32.ofNat n).toNat < 2 ^ 32 := by
    rw [place, room]
    omega
  obtain ⟨limit, usable⟩ := limit_wraps wraps
  rw [place] at usable
  obtain ⟨buf, isBuf⟩ : ∃ buf, buf = b.logBuf + UInt32.ofNat n := ⟨_, rfl⟩
  rw [← isBuf] at place limit usable ⊢
  have here : buf + UInt32.ofNat 0 = buf := UInt32.add_zero buf
  have less : buf < limitOf buf (b.lineBufSize - UInt32.ofNat n) := by
    rw [UInt32.lt_iff_toNat_lt, limit, place]
    omega
  rw [printPatch_sets]
  rcases Nat.eq_zero_or_pos (complete args fmt).length with empty | some
  · left
    refine ⟨UInt32.lt_iff_toNat_lt.mpr ?_, ?_⟩
    · rw [usable, UInt32.toNat_zero]
      omega
    · rw [nulAt, empty, here, if_pos less]
  · exact Or.inr ⟨less, 0, some, here⟩

theorem behind_outside (past : b.most < n) (small : n < 0x10000000) : ¬b.Inside (b.logBuf + UInt32.ofNat n) := by
  unfold LineBuf.Inside
  rw [b.place small]
  omega

end text

/-! ## The addresses of a dump -/

section address
variable {b : LineBuf} {n : Nat} {addr size : UInt32}

def addressText (addr size : UInt32) : List UInt8 :=
  complete (numbers fun n => if n = 0 then addr else addr + size) addressFormat

theorem addressText_length (addr size : UInt32) : (addressText addr size).length ≤ 69 := addressFormat_length _

theorem address_limit (near : n ≤ b.most + rtNameMax) :
    (limitOf (b.logBuf + UInt32.ofNat n) b.lineBufSize).toNat = b.logBuf.toNat + n + b.most ∧
      usableSize (b.logBuf + UInt32.ofNat n) b.lineBufSize = b.lineBufSize := by
  have most := b.most_lt
  have sram := b.sram
  have eight : rtNameMax = 8 := rfl
  have place := b.place (n := n) (by omega)
  have size : b.lineBufSize.toNat = b.most := rfl
  have flat : (b.logBuf + UInt32.ofNat n).toNat + b.lineBufSize.toNat < 2 ^ 32 := by
    rw [place, size]
    omega
  obtain ⟨limit, usable⟩ := limit_flat flat
  exact ⟨by rw [limit, place, size], usable⟩

theorem address_nul (near : n ≤ b.most + rtNameMax) :
    nulAt (b.logBuf + UInt32.ofNat n) b.lineBufSize addressFormat (numbers fun n => if n = 0 then addr else addr + size) =
      b.logBuf + UInt32.ofNat (n + (addressText addr size).length) := by
  have most := b.most_lt
  have least := b.most_ge
  have eight : rtNameMax = 8 := rfl
  have length := addressText_length addr size
  have less : b.logBuf + UInt32.ofNat (n + (addressText addr size).length) <
      limitOf (b.logBuf + UInt32.ofNat n) b.lineBufSize := by
    rw [UInt32.lt_iff_toNat_lt, (address_limit near).1, b.place (by omega)]
    omega
  unfold nulAt
  change (if b.logBuf + UInt32.ofNat n + UInt32.ofNat (addressText addr size).length < _ then
    b.logBuf + UInt32.ofNat n + UInt32.ofNat (addressText addr size).length else _) = _
  rw [b.place_add, if_pos less]

theorem address_sets_nul (near : n ≤ b.most + rtNameMax) :
    (printPatch (b.logBuf + UInt32.ofNat n) b.lineBufSize addressFormat
      (numbers fun n => if n = 0 then addr else addr + size)).Sets
        (b.logBuf + UInt32.ofNat (n + (addressText addr size).length)) := by
  have least := b.most_ge
  rw [printPatch_sets, address_nul near, (address_limit near).2]
  refine Or.inl ⟨UInt32.lt_iff_toNat_lt.mpr ?_, rfl⟩
  rw [UInt32.toNat_zero]
  exact Nat.lt_of_lt_of_le (by decide) least

theorem putAddress_moves (fits : n + (addressText addr size).length ≤ b.most) :
    b.Moves (putAddress b addr size) n (n + (addressText addr size).length) := by
  have most := b.most_lt
  have near : n ≤ b.most + rtNameMax := by omega
  refine ⟨printPatch (b.logBuf + UInt32.ofNat n) b.lineBufSize addressFormat
    (numbers fun n => if n = 0 then addr else addr + size), fun memory => ?_, fun a sets => ?_⟩
  · obtain ⟨length, isLength⟩ : ∃ length, length = (addressText addr size).length := ⟨_, rfl⟩
    have positive : (UInt32.ofNat length).toInt32 > -1 := by
      rw [gt_iff_lt, Int32.lt_iff_toInt_lt, toInt32_ofNat (by omega)]
      exact Int.lt_of_lt_of_le (by decide) (Int.natCast_nonneg _)
    have whole : (UInt32.ofNat length).toInt32 ≤ b.lineBufSize.toInt32 := by
      have size : b.lineBufSize = UInt32.ofNat b.most := by
        rw [← UInt32.toNat_inj, ofNat_toNat (by omega)]
        rfl
      rw [Int32.le_iff_toInt_le, size, toInt32_ofNat (by omega), toInt32_ofNat (by omega)]
      omega
    unfold putAddress print
    simp only [rtVsnprintf_eq, UInt32.toUInt32_toInt32]
    change (if (UInt32.ofNat (addressText addr size).length).toInt32 > -1 ∧
      (UInt32.ofNat (addressText addr size).length).toInt32 ≤ b.lineBufSize.toInt32 then
        (⟨UInt32.ofNat n + UInt32.ofNat (addressText addr size).length, _⟩ : Line) else _) = _
    rw [← isLength, if_pos ⟨positive, whole⟩, UInt32.ofNat_add]
  · rw [printPatch_sets, address_nul near] at sets
    rcases sets with ⟨_, rfl⟩ | ⟨_, i, within, rfl⟩
    · unfold LineBuf.Inside
      rw [b.place (by omega)]
      omega
    · change i < (addressText addr size).length at within
      unfold LineBuf.Inside
      rw [b.place_add, b.place (by omega)]
      omega

end address

section dump
variable {b : LineBuf} {n : Nat}

theorem append_inside (inside : n ≤ b.most) (text : List UInt8) : ∃ n' ≤ b.most, b.Moves (append b text) n n' :=
  ⟨_, Nat.min_le_left _ _, append_moves inside text⟩

theorem dumpHex_moves (buf : UInt32 → UInt8) (size : UInt32) (turns : Nat) (j : UInt32) (inside : n ≤ b.most) :
    ∃ n' ≤ b.most, b.Moves (dumpHex b buf size turns j) n n' := by
  induction turns generalizing n j with
  | zero => exact ⟨n, inside, Moves.refl⟩
  | succ turns ih =>
    obtain ⟨k, kInside, bytes⟩ := append_inside inside (if j < size then dumpString hexFormat (buf j).toUInt32 else ascii "   ")
    obtain ⟨l, lInside, space⟩ : ∃ l ≤ b.most,
        b.Moves (fun line => if (j + 1) % 8 = 0 then append b [0x20] line else line) k l := by
      by_cases eighth : (j + 1) % 8 = 0
      · simp only [if_pos eighth]
        exact append_inside kInside [0x20]
      · simp only [if_neg eighth]
        exact ⟨k, kInside, Moves.refl⟩
    obtain ⟨n', inside', rest⟩ := ih (j + 1) lInside
    exact ⟨n', inside', (bytes.trans space).trans rest⟩

theorem dumpChars_moves (buf : UInt32 → UInt8) (turns : Nat) (j : UInt32) (inside : n ≤ b.most) :
    ∃ n' ≤ b.most, b.Moves (dumpChars b buf turns j) n n' := by
  induction turns generalizing n j with
  | zero => exact ⟨n, inside, Moves.refl⟩
  | succ turns ih =>
    obtain ⟨k, kInside, char⟩ := append_inside inside
      (dumpString charFormat (if isPrint (buf j) then buf j else '.'.toUInt8).toUInt32)
    obtain ⟨n', inside', rest⟩ := ih (j + 1) kInside
    exact ⟨n', inside', char.trans rest⟩

end dump

/-! ## The tail -/

section tail
variable {b : LineBuf} {o : UlogOptions} {n : Nat} {call : Memory → Option Line}

theorem textAt_append {dst : UInt32} {front behind : List UInt8} {memory : Memory}
    (short : front.length + behind.length < 2 ^ 32) :
    (textAt (dst + UInt32.ofNat front.length) behind).apply ((textAt dst front).apply memory) =
      (textAt dst (front ++ behind)).apply memory := by
  induction front generalizing dst memory with
  | nil => rw [List.length_nil, show dst + UInt32.ofNat 0 = dst from UInt32.add_zero dst]; rfl
  | cons ch rest ih =>
    rw [List.length_cons] at short
    have next : dst + UInt32.ofNat (rest.length + 1) = dst + 1 + UInt32.ofNat rest.length := by
      rw [Nat.add_comm, UInt32.ofNat_add, ← UInt32.add_assoc]
      rfl
    rw [List.length_cons, next, ← textAt_cons (by omega), ih (by omega), List.cons_append, textAt_cons]
    rw [List.length_append]
    omega

theorem append_whole {text : List UInt8} (fits : n + text.length ≤ b.most) (memory : Memory) :
    append b text ⟨UInt32.ofNat n, memory⟩ =
      ⟨UInt32.ofNat (n + text.length), (textAt (b.logBuf + UInt32.ofNat n) text).apply memory⟩ := by
  have most := b.most_lt
  rw [append_eq b (by omega), List.take_of_length_le (by omega)]

theorem append_whole_if {c : Prop} [Decidable c] {text : List UInt8} (fits : c → n + text.length ≤ b.most) (memory : Memory) :
    (if c then append b text ⟨UInt32.ofNat n, memory⟩ else ⟨UInt32.ofNat n, memory⟩) =
      ⟨UInt32.ofNat (n + (if c then text else []).length),
        (textAt (b.logBuf + UInt32.ofNat n) (if c then text else [])).apply memory⟩ := by
  split
  case isTrue holds => exact append_whole (fits holds) memory
  case isFalse => rfl

theorem cut_eq (inside : n ≤ b.most) :
    ∃ m, m + (reserve o).toNat ≤ b.most ∧ ∀ memory, (if UInt32.ofNat n + reserve o > b.lineBufSize then
      (⟨b.lineBufSize - reserve o, memory⟩ : Line) else ⟨UInt32.ofNat n, memory⟩) = ⟨UInt32.ofNat m, memory⟩ := by
  have most := b.most_lt
  have least := b.most_ge
  have size : b.lineBufSize.toNat = b.most := rfl
  have few : (reserve o).toNat ≤ 7 := by
    unfold reserve
    cases o.color <;> decide
  have sum : (UInt32.ofNat n + reserve o).toNat = n + (reserve o).toNat := by
    rw [UInt32.toNat_add, ofNat_toNat (by omega)]
    omega
  by_cases past : b.most < n + (reserve o).toNat
  · refine ⟨b.most - (reserve o).toNat, by omega, fun memory => ?_⟩
    have less : UInt32.ofNat n + reserve o > b.lineBufSize := by
      rw [gt_iff_lt, UInt32.lt_iff_toNat_lt, sum]
      exact past
    have left : b.lineBufSize - reserve o = UInt32.ofNat (b.most - (reserve o).toNat) := by
      rw [← UInt32.toNat_inj, UInt32.toNat_sub, ofNat_toNat (by omega), size]
      omega
    rw [if_pos less, left]
  · refine ⟨n, by omega, fun memory => if_neg ?_⟩
    rw [gt_iff_lt, UInt32.lt_iff_toNat_lt, sum]
    exact past

theorem tail_eq (newline : Bool) (level : Nat) (inside : n ≤ b.most) :
    ∃ m, m + (ending o newline level).length + 1 ≤ b.most ∧ ∀ memory,
      ulogTailFormater b o newline level ⟨UInt32.ofNat n, memory⟩ =
        ⟨UInt32.ofNat (m + (ending o newline level).length),
          Function.update ((textAt (b.logBuf + UInt32.ofNat m) (ending o newline level)).apply memory)
            (b.logBuf + UInt32.ofNat (m + (ending o newline level).length)) 0⟩ := by
  have most := b.most_lt
  obtain ⟨m, room, cut⟩ := cut_eq (o := o) inside
  obtain ⟨sign, isSign⟩ : ∃ sign, sign = if newline then newlineSign else [] := ⟨_, rfl⟩
  obtain ⟨stop, isStop⟩ : ∃ stop, stop = if o.color ∧ (colorOutputInfo level).isSome then csiEnd else [] := ⟨_, rfl⟩
  have two : newlineSign.length = 2 := rfl
  have four : csiEnd.length = 4 := rfl
  have short : sign.length ≤ 2 := by
    rw [isSign]
    split <;> decide
  have reserved : stop.length + 3 ≤ (reserve o).toNat := by
    rw [isStop]
    unfold reserve
    cases o.color with
    | false =>
      rw [if_neg (fun both => Bool.false_ne_true both.1)]
      decide
    | true =>
      split <;> decide
  have whole : ending o newline level = sign ++ stop := by rw [ending, isSign, isStop]
  rw [whole, List.length_append]
  refine ⟨m, by omega, fun memory => ?_⟩
  unfold ulogTailFormater
  simp only [cut]
  rw [append_whole_if (fun _ => by omega), ← isSign, append_whole_if fun colored => by
    rw [if_pos colored] at isStop
    rw [isStop] at reserved
    omega]
  rw [← isStop, UInt32.ofNat_add m sign.length, ← UInt32.add_assoc, textAt_append (by omega), Nat.add_assoc]
  rfl

theorem LineBuf.Makes.sound (makes : b.Makes call n) (inside : n ≤ b.most) (newline : Bool) (level : Nat) :
    b.Sound (ending o newline level) fun memory => (call memory).map (ulogTailFormater b o newline level) := by
  have most := b.most_lt
  obtain ⟨p, writes, within⟩ := makes
  obtain ⟨m, room, tail⟩ := tail_eq (b := b) (o := o) newline level inside
  intro memory
  have place : (UInt32.ofNat (m + (ending o newline level).length)).toNat = m + (ending o newline level).length :=
    ofNat_toNat (by omega)
  have done := congrArg (Option.map (ulogTailFormater b o newline level)) (writes memory)
  rw [Option.map_some, tail] at done
  refine ⟨_, done, fun a changed => ?_, by rw [place]; omega, Function.update_self ..,
    m, by rw [place], fun i byte isByte => ?_⟩
  · by_cases nul : a = b.logBuf + UInt32.ofNat (m + (ending o newline level).length)
    · rw [nul]
      unfold LineBuf.Inside
      rw [b.place (by omega)]
      omega
    · simp only [Function.update_of_ne nul, ← Patch.apply_after] at changed
      rcases Patch.sets_after.mp (Patch.sets_of_changed changed) with late | early
      · exact textAt_inside (by omega) late
      · exact within a early
  · have less := (List.getElem?_eq_some_iff.mp isByte).1
    have other : b.logBuf + UInt32.ofNat (m + i) ≠ b.logBuf + UInt32.ofNat (m + (ending o newline level).length) :=
      fun same => by
        have := (b.place_inj (by omega) (by omega)).mp same
        omega
    change Function.update ((textAt (b.logBuf + UInt32.ofNat m) (ending o newline level)).apply (p.apply memory))
      (b.logBuf + UInt32.ofNat (m + (ending o newline level).length)) 0 (b.logBuf + UInt32.ofNat m + UInt32.ofNat i) = byte
    rw [b.place_add, Function.update_of_ne other, textAt_place (by omega) (by omega) _ (by omega), if_pos (by omega),
      Nat.add_sub_cancel_left, isByte, Option.getD_some]

end tail

/-! ## The lines that stay in the buffer -/

section lines
variable {b : LineBuf} {o : UlogOptions} {now : UlogNow} {thread : Option (List UInt8)} {level : Nat} {tag : CString}

/-- The text does not make the cursor of `rt_vsnprintf` come round. -/
def TextFits (b : LineBuf) (o : UlogOptions) (now : UlogNow) (thread : Option (List UInt8)) (level : Nat) (tag fmt : CString)
    (args : VaList) : Prop := b.Reaches (startOf b o now thread level tag) (complete args fmt).length

def AddressFits (b : LineBuf) (o : UlogOptions) (now : UlogNow) (thread : Option (List UInt8)) (tag : CString)
    (addr size : UInt32) : Prop := startOf b o now thread logLvlDbg tag + (addressText addr size).length ≤ b.most

theorem startOf_le : startOf b o now thread level tag ≤ b.most := Nat.min_le_left _ _

theorem not_sound_of_unknown (unknown : ¬LevelKnown o level) (step : Line → Line) (ending : List UInt8) :
    ¬b.Sound ending fun memory => (ulogHeadFormater b o now thread level tag memory).map step := by
  intro sound
  obtain ⟨line, isLine, _⟩ := sound fun _ => 0
  unfold ulogHeadFormater at isLine
  by_cases small : level ≤ logLvlDbg
  · have nameless : o.level = true ∧ levelOutputInfo level = none := by
      unfold LevelKnown at unknown
      push Not at unknown
      obtain ⟨out, missing⟩ := unknown small
      exact ⟨out, by simpa using missing⟩
    simp only [if_pos small, putLevel, if_pos nameless.1, nameless.2, Option.map_none] at isLine
    cases isLine
  · simp only [if_neg small, Option.map_none] at isLine
    cases isLine

theorem formater_sound_iff {newline : Bool} {fmt : CString} {args : VaList} :
    b.Sound (ending o newline level) (ulogFormater b o now thread level tag newline fmt args) ↔
      LevelKnown o level ∧ NameFits b o now thread level tag ∧ TextFits b o now thread level tag fmt args := by
  have parts : ulogFormater b o now thread level tag newline fmt args = fun memory =>
      ((ulogHeadFormater b o now thread level tag memory).map (putText b fmt args)).map
        (ulogTailFormater b o newline level) := by
    funext memory
    rw [Option.map_map]
    rfl
  rw [parts]
  constructor
  · intro sound
    by_cases known : LevelKnown o level
    case neg =>
      simp only [Option.map_map] at sound
      exact (not_sound_of_unknown known _ _ sound).elim
    refine ⟨known, ?_⟩
    by_cases named : NameFits b o now thread level tag
    case neg =>
      obtain ⟨m, p, past, near, writes⟩ := head_overlong known named
      have eight : rtNameMax = 8 := rfl
      have most := b.most_lt
      obtain ⟨len, text⟩ := putText_patch (b := b) fmt args (UInt32.ofNat m)
      have strays := writes.strays text (putText_behind past near) (behind_outside past (by omega))
      exact ((strays.map (tail_patching newline level)).not_sound _ sound).elim
    refine ⟨named, ?_⟩
    by_contra wraps
    obtain ⟨p, writes, _⟩ := head_makes thread known named
    obtain ⟨len, text⟩ := putText_patch (b := b) fmt args (UInt32.ofNat (startOf b o now thread level tag))
    have strays := writes.strays text (putText_wraps startOf_le wraps) (zero_outside b)
    exact (strays.map (tail_patching newline level)).not_sound _ sound
  · rintro ⟨known, named, reaches⟩
    exact ((head_makes thread known named).map (putText_moves startOf_le reaches)).sound (Nat.min_le_left _ _) newline level

theorem debug_known (o : UlogOptions) : LevelKnown o logLvlDbg := ⟨Nat.le_refl _, fun _ => by decide⟩

theorem hex_sound_iff {buf : UInt32 → UInt8} {size width addr : UInt32} :
    b.Sound (ending o true logLvlDbg) (ulogHexFormater b o now thread tag buf size width addr) ↔
      NameFits b o now thread logLvlDbg tag ∧ AddressFits b o now thread tag addr size := by
  have parts : ulogHexFormater b o now thread tag buf size width addr = fun memory =>
      (((((ulogHeadFormater b o now thread logLvlDbg tag memory).map (putAddress b addr size)).map
        (dumpHex b buf size width.toNat 0)).map (append b (ascii "  "))).map (dumpChars b buf size.toNat 0)).map
          (ulogTailFormater b o true logLvlDbg) := by
    funext memory
    simp only [Option.map_map]
    rfl
  rw [parts]
  have behind {call : Memory → Option Line} (strays : b.Strays call) :
      ¬b.Sound (ending o true logLvlDbg) fun memory => ((((call memory).map (dumpHex b buf size width.toNat 0)).map
        (append b (ascii "  "))).map (dumpChars b buf size.toNat 0)).map (ulogTailFormater b o true logLvlDbg) :=
    ((((strays.map (dumpHex_patching _ _ _ _)).map (append_patching _)).map (dumpChars_patching _ _ _)).map
      (tail_patching true logLvlDbg)).not_sound _
  have most := b.most_lt
  have eight : rtNameMax = 8 := rfl
  constructor
  · intro sound
    by_cases named : NameFits b o now thread logLvlDbg tag
    case neg =>
      obtain ⟨m, p, past, near, writes⟩ := head_overlong (debug_known o) named
      obtain ⟨len, text⟩ := putAddress_patch (b := b) addr size (UInt32.ofNat m)
      have length := addressText_length addr size
      have outside := behind_outside (b := b) (n := m + (addressText addr size).length) (by omega) (by omega)
      exact (behind (writes.strays text (address_sets_nul near) outside) sound).elim
    refine ⟨named, ?_⟩
    by_contra past
    obtain ⟨p, writes, _⟩ := head_makes thread (debug_known o) named
    have start : startOf b o now thread logLvlDbg tag ≤ b.most := startOf_le
    obtain ⟨len, text⟩ := putAddress_patch (b := b) addr size (UInt32.ofNat (startOf b o now thread logLvlDbg tag))
    have length := addressText_length addr size
    have outside := behind_outside (b := b) (Nat.lt_of_not_le past) (by omega)
    exact behind (writes.strays text (address_sets_nul (by omega)) outside) sound
  · rintro ⟨named, fits⟩
    obtain ⟨n, inside, hex⟩ := dumpHex_moves (b := b) buf size width.toNat 0 fits
    obtain ⟨n', inside', space⟩ := append_inside inside (ascii "  ")
    obtain ⟨m, mInside, chars⟩ := dumpChars_moves (b := b) buf size.toNat 0 inside'
    exact (((((head_makes thread (debug_known o) named).map (putAddress_moves fits)).map hex).map space).map chars).sound
      mInside true logLvlDbg

/-- The levels that have names, the thread names that fit, the texts that do not turn the cursor round and, in a dump, the
addresses that fit are all that the bounds of a line need. -/
theorem ulog_line_bounds (b : LineBuf) (o : UlogOptions) (now : UlogNow) (thread : Option (List UInt8)) (level : Nat)
    (tag fmt : CString) (newline : Bool) (args : VaList) (buf : UInt32 → UInt8) (size width addr : UInt32) :
    (b.Sound (ending o newline level) (ulogFormater b o now thread level tag newline fmt args) ↔
      LevelKnown o level ∧ NameFits b o now thread level tag ∧ TextFits b o now thread level tag fmt args) ∧
    (b.Sound (ending o true logLvlDbg) (ulogHexFormater b o now thread tag buf size width addr) ↔
      NameFits b o now thread logLvlDbg tag ∧ AddressFits b o now thread tag addr size) :=
  ⟨formater_sound_iff, hex_sound_iff⟩

end lines

/-- 80 characters and a NUL -/
def smallBuf : LineBuf := ⟨0x20000000, 80, by decide, by decide⟩

def tagAndName : UlogOptions := { color := false, time := .off, level := false, tag := true, threadName := true }

/-- The name of the thread goes over the end of the buffer, behind a tag of 78 characters. -/
theorem ulog_line_strays :
    ¬smallBuf.Sound (ending tagAndName true 6) (ulogFormater smallBuf tagAndName ⟨0, fun _ => 0, none⟩ (some (ascii "main")) 6
      ⟨List.replicate 78 0x41, by decide⟩ true ⟨ascii "up", by decide⟩ (numbers fun _ => 0)) := by
  intro sound
  rcases (formater_sound_iff.mp sound).2.1 rfl _ rfl with empty | room
  · exact absurd empty (by decide)
  · exact absurd room (by decide)

end RtThread.Ulog
