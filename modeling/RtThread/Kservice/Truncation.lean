import RtThread.Kservice.Vsnprintf
import Mathlib.Data.List.TakeDrop

/-! What `rt_vsnprintf` prints does not depend on the buffer, and what of it comes into the buffer. -/

set_option autoImplicit false
namespace RtThread.Kservice

/-! ## The complete output -/

theorem padDown_emits (ch : UInt8) (low w : Int32) :
    ∃ (text : List UInt8) (w' : Int32), ∀ {Out : Type} (put : Out → UInt8 → Out) (out : Out), padDown put ch low w out = (text.foldl put out, w') := by
  induction n : (w.toInt - low.toInt).toNat using Nat.strongRecOn generalizing w with
  | ind n ih =>
    by_cases less : low < w
    · have order := Int32.lt_iff_toInt_lt.mp less
      obtain ⟨text, w', rest⟩ := ih _ (by rw [int32_pred less]; omega) (w - 1) rfl
      refine ⟨ch :: text, w', fun put out => ?_⟩
      rw [padDown, if_pos less, rest, List.foldl_cons]
    · refine ⟨[], w - 1, fun put out => ?_⟩
      rw [padDown, if_neg less, List.foldl_nil]

theorem padAhead_emits (ch : UInt8) (w : Int32) :
    ∃ (text : List UInt8) (w' : Int32), ∀ {Out : Type} (put : Out → UInt8 → Out) (out : Out), padAhead put ch w out = (text.foldl put out, w') := by
  induction n : (w - 1).toInt.toNat using Nat.strongRecOn generalizing w with
  | ind n ih =>
    by_cases less : 0 < w - 1
    · have order := Int32.lt_iff_toInt_lt.mp less
      rw [Int32.toInt_zero] at order
      obtain ⟨text, w', rest⟩ := ih _ (by rw [int32_pred less]; omega) (w - 1) rfl
      refine ⟨ch :: text, w', fun put out => ?_⟩
      rw [padAhead, if_pos less, rest, List.foldl_cons]
    · refine ⟨[], w - 1, fun put out => ?_⟩
      rw [padAhead, if_neg less, List.foldl_nil]

theorem putDigits_emits (tmp : List UInt8) (precisionBak : Int32) (i : Nat) :
    ∃ text : List UInt8, ∀ {Out : Type} (put : Out → UInt8 → Out) (out : Out),
      putDigits put tmp precisionBak i out = text.foldl put out := by
  induction i with
  | zero => exact ⟨[], fun put out => rfl⟩
  | succ i ih =>
    by_cases none : precisionBak ≠ 0
    · obtain ⟨text, rest⟩ := ih
      refine ⟨tmp.getD i 0 :: text, fun put out => ?_⟩
      exact (if_pos none).trans (rest put _)
    · exact ⟨[], fun put out => if_neg none⟩

theorem padIf_emits (c : Prop) [Decidable c] (ch : UInt8) (low w v : Int32) :
    ∃ (text : List UInt8) (w' : Int32), ∀ {Out : Type} (put : Out → UInt8 → Out) (out : Out),
      (if c then padDown put ch low w out else (out, v)) = (text.foldl put out, w') := by
  by_cases run : c
  · obtain ⟨text, w', rest⟩ := padDown_emits ch low w
    exact ⟨text, w', fun put out => by rw [if_pos run, rest]⟩
  · exact ⟨[], v, fun put out => by rw [if_neg run, List.foldl_nil]⟩

theorem printNumber_emits (num : UInt32) (base : Base) (qualifier : UInt8) (s precision : Int32) (type : UInt8) :
    ∃ text : List UInt8, ∀ {Out : Type} (put : Out → UInt8 → Out) (out : Out),
      printNumber put num base qualifier s precision type out = text.foldl put out := by
  obtain ⟨type', type'Is⟩ : ∃ type', type' = if Has type left then type &&& ~~~zeropad else type := ⟨_, rfl⟩
  obtain ⟨num', sign, signIs⟩ : ∃ num' sign, getSign type' qualifier num = (num', sign) := ⟨_, _, rfl⟩
  obtain ⟨tmp, tmpIs⟩ : ∃ tmp, tmp = numberTmp type' base num' := ⟨_, rfl⟩
  obtain ⟨most, mostIs⟩ : ∃ most, most = if Int32.ofNat tmp.length > precision then Int32.ofNat tmp.length else precision :=
    ⟨_, rfl⟩
  obtain ⟨size, sizeIs⟩ : ∃ size, size = s - specialSize type' base - most := ⟨_, rfl⟩
  obtain ⟨spaces, size₁, first⟩ := padIf_emits (¬Has type' (zeropad ||| left)) ' '.toUInt8 0
    (if sign ≠ 0 ∧ size > 0 then size - 1 else size) size
  obtain ⟨signs, size₂, second⟩ : ∃ (text : List UInt8) (w : Int32), ∀ {Out : Type} (put : Out → UInt8 → Out) (out : Out),
      (if sign ≠ 0 then (put out sign, size₁ - 1) else (out, size₁)) = (text.foldl put out, w) := by
    by_cases none : sign ≠ 0
    · exact ⟨[sign], size₁ - 1, fun put out => by rw [if_pos none, List.foldl_cons, List.foldl_nil]⟩
    · exact ⟨[], size₁, fun put out => by rw [if_neg none, List.foldl_nil]⟩
  obtain ⟨fill, size₃, third⟩ := padIf_emits (¬Has type' left)
    (if Has type' zeropad then '0'.toUInt8 else ' '.toUInt8) 0 size₂ size₂
  obtain ⟨zeros, _, fourth⟩ := padDown_emits '0'.toUInt8 (Int32.ofNat tmp.length) most
  obtain ⟨digits, fifth⟩ := putDigits_emits tmp precision tmp.length
  obtain ⟨behind, _, sixth⟩ := padDown_emits ' '.toUInt8 0 size₃
  refine ⟨spaces ++ signs ++ specialChars type' base ++ fill ++ zeros ++ digits ++ behind, fun put out => ?_⟩
  unfold printNumber
  simp only [← type'Is, signIs, ← tmpIs, ← mostIs, ← sizeIs, first, second, third, fourth, fifth, sixth,
    List.foldl_append]

theorem convertChar_emits (c : UInt8) (d : Directive) :
    ∃ text : List UInt8, ∀ {Out : Type} (put : Out → UInt8 → Out) (out : Out),
      convertChar put c d out = text.foldl put out := by
  obtain ⟨spaces, w, first⟩ : ∃ (text : List UInt8) (w : Int32), ∀ {Out : Type} (put : Out → UInt8 → Out) (out : Out),
      (if ¬Has d.flags left then padAhead put ' '.toUInt8 d.fieldWidth out else (out, d.fieldWidth)) =
        (text.foldl put out, w) := by
    by_cases run : ¬Has d.flags left
    · obtain ⟨text, w, rest⟩ := padAhead_emits ' '.toUInt8 d.fieldWidth
      exact ⟨text, w, fun put out => by rw [if_pos run, rest]⟩
    · exact ⟨[], d.fieldWidth, fun put out => by rw [if_neg run, List.foldl_nil]⟩
  obtain ⟨behind, _, second⟩ := padAhead_emits ' '.toUInt8 w
  refine ⟨spaces ++ c :: behind, fun put out => ?_⟩
  unfold convertChar
  simp only [first, second, List.foldl_append, List.foldl_cons]

theorem putText_emits (len : Int32) (s : List UInt8) (i : Int32) :
    ∃ text : List UInt8, ∀ {Out : Type} (put : Out → UInt8 → Out) (out : Out),
      putText put len s i out = text.foldl put out := by
  induction s generalizing i with
  | nil => exact ⟨[], fun put out => rfl⟩
  | cons ch rest ih =>
    by_cases less : i < len
    · obtain ⟨text, more⟩ := ih (i + 1)
      exact ⟨ch :: text, fun put out => (if_pos less).trans (more put _)⟩
    · exact ⟨[], fun put out => if_neg less⟩

theorem convertText_emits (s : List UInt8) (d : Directive) :
    ∃ text : List UInt8, ∀ {Out : Type} (put : Out → UInt8 → Out) (out : Out),
      convertText put s d out = text.foldl put out := by
  obtain ⟨len, lenIs⟩ : ∃ len, len = if d.precision > 0 ∧ textLen d.fieldWidth s 0 > d.precision then d.precision
      else textLen d.fieldWidth s 0 := ⟨_, rfl⟩
  obtain ⟨spaces, w, first⟩ := padIf_emits (¬Has d.flags left) ' '.toUInt8 len d.fieldWidth d.fieldWidth
  obtain ⟨text, second⟩ := putText_emits len s 0
  obtain ⟨behind, _, third⟩ := padDown_emits ' '.toUInt8 len w
  refine ⟨spaces ++ text ++ behind, fun put out => ?_⟩
  unfold convertText
  simp only [← lenIs, first, second, third, List.foldl_append]

theorem convertPointer_emits (num : UInt32) (d : Directive) :
    ∃ text : List UInt8, ∀ {Out : Type} (put : Out → UInt8 → Out) (out : Out),
      convertPointer put num d out = text.foldl put out := by
  by_cases none : d.fieldWidth = -1
  · obtain ⟨text, rest⟩ := printNumber_emits num ⟨16, by decide⟩ d.qualifier 10 d.precision (d.flags ||| special ||| zeropad)
    exact ⟨text, fun put out => (if_pos none).trans (rest put out)⟩
  · obtain ⟨text, rest⟩ := printNumber_emits num ⟨16, by decide⟩ d.qualifier d.fieldWidth d.precision d.flags
    exact ⟨text, fun put out => (if_neg none).trans (rest put out)⟩

section format
variable (args : VaList)

theorem convert_emits (fmt : List UInt8) (n : Nat) (d : Directive) :
    ∃ (rest : List UInt8) (n' : Nat) (text : List UInt8), ∀ {Out : Type} (put : Out → UInt8 → Out) (out : Out),
      convert put args fmt n d out = (rest, n', text.foldl put out) := by
  cases fmt with
  | nil => exact ⟨[], n, ['%'.toUInt8], fun put out => rfl⟩
  | cons ch rest =>
    by_cases char : ch = 'c'.toUInt8
    · obtain ⟨text, emits⟩ := convertChar_emits (args.word n).toUInt8 d
      refine ⟨rest, n + 1, text, fun put out => ?_⟩
      rw [convert, if_pos char, emits put out]
    by_cases string : ch = 's'.toUInt8
    · obtain ⟨text, emits⟩ := convertText_emits (if args.word n = 0 then "(NULL)".toList.map Char.toUInt8
        else (args.string (args.word n)).text) d
      refine ⟨rest, n + 1, text, fun put out => ?_⟩
      rw [convert, if_neg char, if_pos string, emits put out]
    by_cases pointer : ch = 'p'.toUInt8
    · obtain ⟨text, emits⟩ := convertPointer_emits (args.word n) d
      refine ⟨rest, n + 1, text, fun put out => ?_⟩
      rw [convert, if_neg char, if_neg string, if_pos pointer, emits put out]
    by_cases percent : ch = '%'.toUInt8
    · refine ⟨rest, n, ['%'.toUInt8], fun put out => ?_⟩
      rw [convert, if_neg char, if_neg string, if_neg pointer, if_pos percent, List.foldl_cons, List.foldl_nil]
    cases integer : integerFormat ch with
    | none =>
      refine ⟨rest, n, ['%'.toUInt8, ch], fun put out => ?_⟩
      rw [convert, if_neg char, if_neg string, if_neg pointer, if_neg percent, integer]
      rfl
    | some format =>
      obtain ⟨base, more⟩ := format
      obtain ⟨text, emits⟩ := printNumber_emits (integerArg d.qualifier (d.flags ||| more) (args.word n)) base d.qualifier
        d.fieldWidth d.precision (d.flags ||| more)
      refine ⟨rest, n + 1, text, fun put out => ?_⟩
      rw [convert, if_neg char, if_neg string, if_neg pointer, if_neg percent, integer]
      exact congrArg (fun out => (rest, n + 1, out)) (emits put out)

theorem format_emits (fmt : List UInt8) (n : Nat) :
    ∃ text : List UInt8, ∀ {Out : Type} (put : Out → UInt8 → Out) (out : Out),
      format args put fmt n out = text.foldl put out := by
  induction size : fmt.length using Nat.strongRecOn generalizing fmt n with
  | ind m ih =>
    cases fmt with
    | nil => exact ⟨[], fun put out => by rw [format.eq_def]; rfl⟩
    | cons ch rest =>
      by_cases plain : ch ≠ '%'.toUInt8
      · obtain ⟨text, emits⟩ := ih rest.length (by rw [← size]; exact Nat.lt_succ_self _) rest n rfl
        refine ⟨ch :: text, fun put out => ?_⟩
        rw [format.eq_def]
        exact (if_pos plain).trans (emits put _)
      · obtain ⟨fmt', n', text, converts⟩ := convert_emits args (parse args rest n).1 (parse args rest n).2.1
          (parse args rest n).2.2
        have shorter : fmt'.length < m := by
          have whole := convert_length args (fun (out : List UInt8) _ => out) (parse args rest n).1 (parse args rest n).2.1
            (parse args rest n).2.2 []
          have parsed := parse_length args rest n
          rw [converts] at whole
          simp only [List.length_cons] at size whole
          omega
        obtain ⟨more, emits⟩ := ih fmt'.length shorter fmt' n' rfl
        refine ⟨text ++ more, fun put out => ?_⟩
        rw [format.eq_def]
        refine (if_neg plain).trans ?_
        simp only [converts, List.foldl_append]
        exact emits put _

def complete (fmt : CString) : List UInt8 := format args (fun text ch => text ++ [ch]) fmt.text 0 []

theorem foldl_snoc (text front : List UInt8) : text.foldl (fun text ch => text ++ [ch]) front = front ++ text := by
  induction text generalizing front with
  | nil => rw [List.foldl_nil, List.append_nil]
  | cons ch rest ih => rw [List.foldl_cons, ih, List.append_assoc, List.singleton_append]

theorem format_complete (fmt : CString) {Out : Type} (put : Out → UInt8 → Out) (out : Out) :
    format args put fmt.text 0 out = (complete args fmt).foldl put out := by
  obtain ⟨text, emits⟩ := format_emits args fmt.text 0
  have same : complete args fmt = text := by
    rw [complete, emits, foldl_snoc, List.nil_append]
  rw [emits, same]

end format

/-! ## The buffer -/

section cursor
variable {limit : UInt32} {memory : Memory}

theorem foldl_put_str (text : List UInt8) (cursor : Cursor) :
    (text.foldl (Cursor.put limit) cursor).str = cursor.str + UInt32.ofNat text.length := by
  induction text generalizing cursor with
  | nil => exact (UInt32.add_zero _).symm
  | cons ch rest ih =>
    rw [List.foldl_cons, ih, List.length_cons, Nat.add_comm, UInt32.ofNat_add, ← UInt32.add_assoc]
    rfl

theorem foldl_put_memory (text : List UInt8) (cursor : Cursor) (short : text.length ≤ 2 ^ 32) (a : UInt32) :
    (text.foldl (Cursor.put limit) cursor).memory a =
      if a < limit then text.getD (a - cursor.str).toNat (cursor.memory a) else cursor.memory a := by
  induction text generalizing cursor with
  | nil => simp
  | cons ch rest ih =>
    rw [List.length_cons] at short
    rw [List.foldl_cons, ih _ (by omega)]
    have str : (Cursor.put limit cursor ch).str = cursor.str + 1 := rfl
    have memory : (Cursor.put limit cursor ch).memory a =
        if a = cursor.str ∧ a < limit then ch else cursor.memory a := by
      unfold Cursor.put
      split
      case isTrue inside =>
        simp only [Function.update_apply]
        split
        case isTrue own => rw [if_pos ⟨own, own ▸ inside⟩]
        case isFalse apart => rw [if_neg (fun both => apart (And.left both))]
      case isFalse outside => rw [if_neg (by rintro ⟨rfl, inside⟩; exact outside inside)]
    rw [str, memory]
    by_cases inside : a < limit
    · rw [if_pos inside, if_pos inside]
      by_cases own : a = cursor.str
      · have last : (a - (cursor.str + 1)).toNat = 2 ^ 32 - 1 := by
          rw [own, UInt32.toNat_sub, UInt32.toNat_add, UInt32.toNat_one]
          have bound := cursor.str.toNat_lt
          omega
        rw [if_pos ⟨own, inside⟩, last, List.getD_eq_getElem?_getD, List.getElem?_eq_none (by omega), own, UInt32.sub_self]
        rfl
      · have next : (a - cursor.str).toNat = (a - (cursor.str + 1)).toNat + 1 := by
          have apart : a.toNat ≠ cursor.str.toNat := fun same => own (UInt32.toNat_inj.mp same)
          rw [UInt32.toNat_sub, UInt32.toNat_sub, UInt32.toNat_add, UInt32.toNat_one]
          have bound := cursor.str.toNat_lt
          have bound' := a.toNat_lt
          omega
        rw [if_neg fun both => own both.1, next, List.getD_cons_succ]
    · rw [if_neg inside, if_neg inside, if_neg fun both => inside both.2]

end cursor

theorem limit_flat {buf size : UInt32} (flat : buf.toNat + size.toNat < 2 ^ 32) :
    (limitOf buf size).toNat = buf.toNat + size.toNat ∧ usableSize buf size = size := by
  have sum : (buf + size).toNat = buf.toNat + size.toNat := by
    rw [UInt32.toNat_add]
    omega
  have order : ¬buf + size < buf := by
    rw [UInt32.lt_iff_toNat_lt, sum]
    omega
  rw [limitOf, usableSize, if_neg order, if_neg order]
  exact ⟨sum, rfl⟩

theorem limit_wraps {buf size : UInt32} (wraps : ¬buf.toNat + size.toNat < 2 ^ 32) :
    (limitOf buf size).toNat = 2 ^ 32 - 1 ∧ (usableSize buf size).toNat = 2 ^ 32 - 1 - buf.toNat := by
  have bound := buf.toNat_lt
  have bound' := size.toNat_lt
  have order : buf + size < buf := by
    rw [UInt32.lt_iff_toNat_lt, UInt32.toNat_add]
    omega
  have top : (0xFFFFFFFF : UInt32).toNat = 2 ^ 32 - 1 := rfl
  rw [limitOf, usableSize, if_pos order, if_pos order, UInt32.toNat_sub, top]
  omega

/-- The bytes from `buf` on. -/
def Stores (memory : Memory) (buf : UInt32) (bytes : List UInt8) : Prop :=
  ∀ i b, bytes[i]? = some b → memory (buf + UInt32.ofNat i) = b

/-- The length of the complete output is returned, nothing outside the buffer changes, and a buffer that is not empty
has the characters that fit and a NUL. -/
structure Truncates (buf size : UInt32) (fmt : CString) (args : VaList) : Prop where
  ret : ∀ memory, (rtVsnprintf buf size fmt args memory).ret.toInt = (complete args fmt).length
  inside : ∀ memory a, (rtVsnprintf buf size fmt args memory).memory a ≠ memory a →
    buf.toNat ≤ a.toNat ∧ a.toNat < buf.toNat + size.toNat
  text : 0 < size.toNat → ∀ memory,
    Stores (rtVsnprintf buf size fmt args memory).memory buf ((complete args fmt).take (size.toNat - 1) ++ [0])

/-- The length is an `int`, and the cursor does not pass the end of the address space. -/
def Fits (buf size : UInt32) (length : Nat) : Prop :=
  length < 2 ^ 31 ∧
    if size.toNat = 0 then buf.toNat + length ≤ 2 ^ 32
    else if buf.toNat + size.toNat < 2 ^ 32 then buf.toNat + length < 2 ^ 32
    else buf.toNat + length < 2 ^ 32 - 1

section printed
variable {buf size : UInt32} {fmt : CString} {args : VaList}

theorem ret_eq_iff (memory : Memory) :
    (rtVsnprintf buf size fmt args memory).ret.toInt = (complete args fmt).length ↔ (complete args fmt).length < 2 ^ 31 := by
  have ret : (rtVsnprintf buf size fmt args memory).ret = (UInt32.ofNat (complete args fmt).length).toInt32 := by
    simp only [rtVsnprintf, format_complete, foldl_put_str]
    rw [UInt32.add_comm, UInt32.add_sub_cancel]
  have value : (UInt32.ofNat (complete args fmt).length).toInt32.toInt =
      ((complete args fmt).length : Int).bmod (2 ^ 32) := by
    have number : (UInt32.ofNat (complete args fmt).length).toInt32.toInt =
        (BitVec.ofNat 32 (complete args fmt).length).toInt := rfl
    rw [number, BitVec.toInt_ofNat']
  rw [ret, value]
  constructor
  · intro same
    have below := Int.bmod_lt (x := ((complete args fmt).length : Int)) (m := 2 ^ 32) (by decide)
    omega
  · intro small
    exact Int.bmod_eq_of_le (by omega) (by omega)

theorem printed_memory (memory : Memory) (short : (complete args fmt).length < 2 ^ 32) (a : UInt32) :
    (rtVsnprintf buf size fmt args memory).memory a =
      if 0 < (usableSize buf size).toNat ∧
          a.toNat = (if (buf.toNat + (complete args fmt).length) % 2 ^ 32 < (limitOf buf size).toNat then
            (buf.toNat + (complete args fmt).length) % 2 ^ 32 else (limitOf buf size - 1).toNat) then 0
      else if a < limitOf buf size then (complete args fmt).getD (a - buf).toNat (memory a) else memory a := by
  have str : ((complete args fmt).foldl (Cursor.put (limitOf buf size)) ⟨buf, memory⟩).str.toNat =
      (buf.toNat + (complete args fmt).length) % 2 ^ 32 := by
    rw [foldl_put_str, UInt32.toNat_add, UInt32.toNat_ofNat_of_lt' short]
  have loop : ((complete args fmt).foldl (Cursor.put (limitOf buf size)) ⟨buf, memory⟩).memory a = _ :=
    foldl_put_memory (complete args fmt) ⟨buf, memory⟩ (Nat.le_of_lt short) a
  have order : usableSize buf size > 0 ↔ 0 < (usableSize buf size).toNat := UInt32.lt_iff_toNat_lt
  have front : ((complete args fmt).foldl (Cursor.put (limitOf buf size)) ⟨buf, memory⟩).str < limitOf buf size ↔
      (buf.toNat + (complete args fmt).length) % 2 ^ 32 < (limitOf buf size).toNat := by
    rw [UInt32.lt_iff_toNat_lt, str]
  simp only [rtVsnprintf, format_complete, order, front]
  by_cases some : 0 < (usableSize buf size).toNat
  · simp only [some, if_true, true_and]
    by_cases room : (buf.toNat + (complete args fmt).length) % 2 ^ 32 < (limitOf buf size).toNat
    · simp only [room, if_true, Function.update_apply, loop, ← UInt32.toNat_inj, str]
    · simp only [room, if_false, Function.update_apply, loop, ← UInt32.toNat_inj]
  · simp only [some, if_false, false_and]
    exact loop

theorem getD_outside {length : Nat} {text : List UInt8} (whole : text.length = length) {a : UInt32} (b : UInt8)
    (outside : length ≤ (a - buf).toNat) : text.getD (a - buf).toNat b = b := by
  rw [List.getD_eq_getElem?_getD, List.getElem?_eq_none (by omega)]
  rfl

section
variable (memory : Memory) (short : (complete args fmt).length < 2 ^ 31)
include memory short

theorem unchanged_of_empty (empty : size.toNat = 0)
    (fits : buf.toNat + (complete args fmt).length ≤ 2 ^ 32) (a : UInt32) :
    (rtVsnprintf buf size fmt args memory).memory a = memory a := by
  have bound := buf.toNat_lt
  have flat : buf.toNat + size.toNat < 2 ^ 32 := by omega
  obtain ⟨limit, usable⟩ := limit_flat flat
  rw [printed_memory memory (Nat.lt_trans short (by decide)), usable, empty, if_neg (by omega)]
  split
  case isTrue less =>
    rw [UInt32.lt_iff_toNat_lt, limit] at less
    refine getD_outside rfl _ ?_
    rw [UInt32.toNat_sub]
    have bound' := a.toNat_lt
    omega
  case isFalse => rfl

section
variable (flat : buf.toNat + (complete args fmt).length < 2 ^ 32) (room : buf.toNat < (limitOf buf size).toNat) (some : 0 < (usableSize buf size).toNat)
include flat room some

theorem memory_of_room (a : UInt32) :
    (rtVsnprintf buf size fmt args memory).memory a =
      if a.toNat = buf.toNat + min (complete args fmt).length ((limitOf buf size).toNat - buf.toNat - 1) then 0
      else if buf.toNat ≤ a.toNat ∧ a.toNat < (limitOf buf size).toNat then
        (complete args fmt).getD (a.toNat - buf.toNat) (memory a) else memory a := by
  have bound := buf.toNat_lt
  have bound' := a.toNat_lt
  have one : (limitOf buf size - 1).toNat = (limitOf buf size).toNat - 1 := by
    rw [UInt32.toNat_sub, UInt32.toNat_one]
    have bound'' := (limitOf buf size).toNat_lt
    omega
  have nul : (if (buf.toNat + (complete args fmt).length) % 2 ^ 32 < (limitOf buf size).toNat then
      (buf.toNat + (complete args fmt).length) % 2 ^ 32 else (limitOf buf size - 1).toNat) =
      buf.toNat + min (complete args fmt).length ((limitOf buf size).toNat - buf.toNat - 1) := by
    rw [one, Nat.mod_eq_of_lt flat]
    split <;> omega
  rw [printed_memory memory (Nat.lt_trans short (by decide)), nul]
  simp only [some, true_and]
  by_cases end' : a.toNat = buf.toNat + min (complete args fmt).length ((limitOf buf size).toNat - buf.toNat - 1)
  · rw [if_pos end', if_pos end']
  rw [if_neg end', if_neg end']
  simp only [UInt32.lt_iff_toNat_lt]
  by_cases less : a.toNat < (limitOf buf size).toNat
  · rw [if_pos less]
    by_cases front : buf.toNat ≤ a.toNat
    · have index : (a - buf).toNat = a.toNat - buf.toNat := by
        rw [UInt32.toNat_sub]
        omega
      rw [if_pos ⟨front, less⟩, index]
    · rw [if_neg fun both => front both.1]
      refine getD_outside rfl _ ?_
      rw [UInt32.toNat_sub]
      omega
  · rw [if_neg less, if_neg fun both => less both.2]

theorem stores_of_room (last : min (complete args fmt).length ((limitOf buf size).toNat - buf.toNat - 1) =
      min (complete args fmt).length (size.toNat - 1)) :
    Stores (rtVsnprintf buf size fmt args memory).memory buf ((complete args fmt).take (size.toNat - 1) ++ [0]) := by
  intro i b byte
  have length : ((complete args fmt).take (size.toNat - 1)).length =
      min (complete args fmt).length ((limitOf buf size).toNat - buf.toNat - 1) := by
    rw [List.length_take, last, Nat.min_comm]
  have below : i ≤ min (complete args fmt).length ((limitOf buf size).toNat - buf.toNat - 1) := by
    have inside := (List.getElem?_eq_some_iff.mp byte).1
    rw [List.length_append, length, List.length_singleton] at inside
    omega
  have top := (limitOf buf size).toNat_lt
  have small : i < 2 ^ 32 := by omega
  have place : (buf + UInt32.ofNat i).toNat = buf.toNat + i := by
    rw [UInt32.toNat_add, UInt32.toNat_ofNat_of_lt' small]
    omega
  rw [memory_of_room memory short flat room some, place]
  by_cases end' : i = min (complete args fmt).length ((limitOf buf size).toNat - buf.toNat - 1)
  · rw [if_pos (by rw [end'])]
    rw [end', ← length, List.getElem?_concat_length] at byte
    exact Option.some.inj byte
  · rw [if_neg (by omega), if_pos (by omega), Nat.add_sub_cancel_left]
    rw [List.getElem?_append_left (by omega), List.getElem?_take_of_lt (by omega)] at byte
    rw [List.getD_eq_getElem?_getD, byte]
    rfl

end

end

theorem truncates_of_fits (fits : Fits buf size (complete args fmt).length) : Truncates buf size fmt args := by
  obtain ⟨short, fits⟩ := fits
  have ret (memory : Memory) : (rtVsnprintf buf size fmt args memory).ret.toInt = (complete args fmt).length :=
    (ret_eq_iff memory).mpr short
  by_cases empty : size.toNat = 0
  · rw [if_pos empty] at fits
    exact ⟨ret, fun memory a changed => absurd (unchanged_of_empty memory short empty fits a) changed,
      fun some => absurd empty (Nat.ne_of_gt some)⟩
  rw [if_neg empty] at fits
  have flat : buf.toNat + (complete args fmt).length < 2 ^ 32 := by
    split at fits <;> omega
  obtain ⟨room, some, last, within⟩ : buf.toNat < (limitOf buf size).toNat ∧ 0 < (usableSize buf size).toNat ∧
      min (complete args fmt).length ((limitOf buf size).toNat - buf.toNat - 1) =
        min (complete args fmt).length (size.toNat - 1) ∧ (limitOf buf size).toNat ≤ buf.toNat + size.toNat := by
    by_cases inner : buf.toNat + size.toNat < 2 ^ 32
    · obtain ⟨limit, usable⟩ := limit_flat inner
      rw [limit, usable]
      omega
    · rw [if_neg inner] at fits
      obtain ⟨limit, usable⟩ := limit_wraps inner
      rw [limit, usable]
      omega
  refine ⟨ret, fun memory a changed => ?_, fun _ memory => stores_of_room memory short flat room some last⟩
  rw [memory_of_room memory short flat room some] at changed
  split at changed
  · omega
  · split at changed
    · omega
    · exact absurd rfl changed

theorem fresh_byte (b : UInt8) : b + 1 ≠ b := by
  intro same
  have : b + 1 - b = 0 := by rw [same, UInt8.sub_self]
  rw [UInt8.add_comm, UInt8.add_sub_cancel] at this
  exact absurd this (by decide)

theorem not_passing (truncates : Truncates buf size fmt args) (short : (complete args fmt).length < 2 ^ 31)
    (inner : buf.toNat + size.toNat < 2 ^ 32) :
    buf.toNat + (complete args fmt).length + (if size.toNat = 0 then 0 else 1) ≤ 2 ^ 32 := by
  by_contra passes
  have bound := buf.toNat_lt
  obtain ⟨limit, usable⟩ := limit_flat inner
  have zero : (0 : UInt32).toNat = 0 := rfl
  have far : 0 < buf.toNat ∧ 2 ^ 32 ≤ buf.toNat + (complete args fmt).length := by
    split at passes <;> omega
  obtain ⟨b, printed⟩ : ∃ b, ∀ memory, (rtVsnprintf buf size fmt args memory).memory 0 = b := by
    have first : (0 : UInt32) < limitOf buf size := by
      rw [UInt32.lt_iff_toNat_lt, zero, limit]
      omega
    simp only [printed_memory _ (Nat.lt_trans short (by decide)), usable, zero]
    by_cases nul : 0 < size.toNat ∧ 0 = (if (buf.toNat + (complete args fmt).length) % 2 ^ 32 < (limitOf buf size).toNat then
        (buf.toNat + (complete args fmt).length) % 2 ^ 32 else (limitOf buf size - 1).toNat)
    · exact ⟨0, fun memory => if_pos nul⟩
    · refine ⟨(complete args fmt).getD (0 - buf).toNat 0, fun memory => ?_⟩
      have index : (0 - buf).toNat < (complete args fmt).length := by
        have past : 2 ^ 32 < buf.toNat + (complete args fmt).length := by
          rcases Nat.eq_zero_or_pos size.toNat with empty | some
          · rw [if_pos empty] at passes
            omega
          · refine Nat.lt_of_le_of_ne far.2 fun ends => nul ⟨some, ?_⟩
            rw [← ends, Nat.mod_self, if_pos (by omega)]
        rw [UInt32.toNat_sub, zero]
        omega
      rw [if_neg nul, if_pos first, List.getD_eq_getElem?_getD, List.getD_eq_getElem?_getD,
        List.getElem?_eq_getElem index]
      rfl
  have changed : (rtVsnprintf buf size fmt args fun _ => b + 1).memory 0 ≠ b + 1 := by
    rw [printed]
    exact (fresh_byte b).symm
  have inside := truncates.inside (fun _ => b + 1) 0 changed
  rw [zero] at inside
  omega

theorem not_reaching (truncates : Truncates buf size fmt args) (short : (complete args fmt).length < 2 ^ 31)
    (wraps : ¬buf.toNat + size.toNat < 2 ^ 32) : buf.toNat + (complete args fmt).length < 2 ^ 32 - 1 := by
  by_contra reaches
  have bound := buf.toNat_lt
  have bound' := size.toNat_lt
  obtain ⟨limit, usable⟩ := limit_wraps wraps
  have top : (0xFFFFFFFF : UInt32).toNat = 2 ^ 32 - 1 := rfl
  have kept (memory : Memory) : (rtVsnprintf buf size fmt args memory).memory 0xFFFFFFFF = memory 0xFFFFFFFF := by
    have one : (limitOf buf size - 1).toNat = 2 ^ 32 - 2 := by
      rw [UInt32.toNat_sub, UInt32.toNat_one]
      omega
    rw [printed_memory memory (Nat.lt_trans short (by decide)), limit, one, top, if_neg (by split <;> omega), if_neg]
    rw [UInt32.lt_iff_toNat_lt, top, limit]
    omega
  have length : ((complete args fmt).take (size.toNat - 1) ++ [0]).length =
      min (size.toNat - 1) (complete args fmt).length + 1 := by
    rw [List.length_append, List.length_take, List.length_singleton]
  obtain ⟨b, byte⟩ : ∃ b, ((complete args fmt).take (size.toNat - 1) ++ [0])[2 ^ 32 - 1 - buf.toNat]? = some b :=
    ⟨_, List.getElem?_eq_getElem (by omega)⟩
  have small : 2 ^ 32 - 1 - buf.toNat < 2 ^ 32 := by omega
  have place : buf + UInt32.ofNat (2 ^ 32 - 1 - buf.toNat) = 0xFFFFFFFF := by
    rw [← UInt32.toNat_inj, UInt32.toNat_add, UInt32.toNat_ofNat_of_lt' small, top]
    omega
  have stored := truncates.text (by omega) (fun _ => b + 1) _ b byte
  rw [place, kept] at stored
  exact fresh_byte b stored

theorem fits_of_truncates (truncates : Truncates buf size fmt args) : Fits buf size (complete args fmt).length := by
  have short := (ret_eq_iff _).mp (truncates.ret fun _ => 0)
  refine ⟨short, ?_⟩
  by_cases inner : buf.toNat + size.toNat < 2 ^ 32
  · have passes := not_passing truncates short inner
    split
    case isTrue empty =>
      rw [if_pos empty] at passes
      exact passes
    case isFalse some =>
      rw [if_neg some] at passes
      omega
  · have some : size.toNat ≠ 0 := by
      have bound := buf.toNat_lt
      omega
    rw [if_neg some, if_neg inner]
    exact not_reaching truncates short inner

end printed

/-! ## Long outputs -/

theorem padAhead_length (ch : UInt8) (w : Int32) (out : List UInt8) (some : 0 < w.toInt) :
    (padAhead (fun text ch => text ++ [ch]) ch w out).1.length + 1 = out.length + w.toInt.toNat := by
  induction n : (w - 1).toInt.toNat using Nat.strongRecOn generalizing w out with
  | ind n ih =>
    have pred : (w - 1).toInt = w.toInt - 1 := int32_pred (show 0 < w from Int32.lt_iff_toInt_lt.mpr some)
    by_cases more : 0 < w - 1
    · have order := Int32.lt_iff_toInt_lt.mp more
      rw [Int32.toInt_zero] at order
      have rest := ih _ (by rw [int32_pred more]; omega) (w - 1) (out ++ [ch]) order rfl
      rw [padAhead, if_pos more, rest, List.length_append, List.length_singleton, pred]
      omega
    · have order : ¬0 < (w - 1).toInt := fun order => more (Int32.lt_iff_toInt_lt.mpr order)
      rw [padAhead, if_neg more]
      dsimp only
      omega

theorem foldl_snoc_length (text out : List UInt8) : out.length ≤ (text.foldl (fun text ch => text ++ [ch]) out).length := by
  rw [foldl_snoc, List.length_append]
  exact Nat.le_add_right _ _

theorem convertChar_length (c : UInt8) (d : Directive) (out : List UInt8) (right : ¬Has d.flags left)
    (some : 0 < d.fieldWidth.toInt) :
    out.length + d.fieldWidth.toInt.toNat ≤ (convertChar (fun text ch => text ++ [ch]) c d out).length := by
  have spaces := padAhead_length ' '.toUInt8 d.fieldWidth out some
  obtain ⟨text, w, behind⟩ := padAhead_emits ' '.toUInt8
    (padAhead (fun text ch => text ++ [ch]) ' '.toUInt8 d.fieldWidth out).2
  have more := foldl_snoc_length text ((padAhead (fun text ch => text ++ [ch]) ' '.toUInt8 d.fieldWidth out).1 ++ [c])
  rw [List.length_append, List.length_singleton, spaces] at more
  unfold convertChar
  rw [if_pos right]
  dsimp only
  rw [behind]
  exact more

theorem format_length (args : VaList) (fmt : List UInt8) (n : Nat) (out : List UInt8) :
    out.length ≤ (format args (fun text ch => text ++ [ch]) fmt n out).length := by
  obtain ⟨text, emits⟩ := format_emits args fmt n
  rw [emits]
  exact foldl_snoc_length text out

theorem format_wide (args : VaList) (rest : List UInt8) (n : Nat) (out : List UInt8) :
    ∃ out' : List UInt8, out.length + 2147483647 ≤ out'.length ∧
      format args (fun text ch => text ++ [ch]) ("%2147483647c".toList.map Char.toUInt8 ++ rest) n out =
        format args (fun text ch => text ++ [ch]) rest (n + 1) out' := by
  have directive : parse args ("2147483647c".toList.map Char.toUInt8 ++ rest) n =
      ('c'.toUInt8 :: rest, n, ⟨0, 2147483647, -1, 0⟩) := by rfl
  refine ⟨_, convertChar_length (args.word n).toUInt8 ⟨0, 2147483647, -1, 0⟩ out (by decide) (by decide), ?_⟩
  have head : "%2147483647c".toList.map Char.toUInt8 ++ rest =
      '%'.toUInt8 :: ("2147483647c".toList.map Char.toUInt8 ++ rest) := rfl
  rw [head, format.eq_def]
  refine (if_neg (fun plain => plain rfl)).trans ?_
  simp only [directive, convert, if_pos]

/-- `"%2147483647c%2147483647c"` -/
def wide : CString := ⟨"%2147483647c%2147483647c".toList.map Char.toUInt8, by decide⟩

theorem complete_wide (args : VaList) : 2 ^ 31 ≤ (complete args wide).length := by
  have text : wide.text = "%2147483647c".toList.map Char.toUInt8 ++ ("%2147483647c".toList.map Char.toUInt8 ++ []) := rfl
  obtain ⟨first, long, one⟩ := format_wide args ("%2147483647c".toList.map Char.toUInt8 ++ []) 0 []
  obtain ⟨second, longer, two⟩ := format_wide args [] 1 first
  have whole := format_length args [] (1 + 1) second
  rw [complete, text, one, two]
  omega

/-- `rt_vsnprintf` truncates its output to the buffer just if the output fits in front of the end of the address
space. -/
theorem vsnprintf_truncates (buf size : UInt32) (fmt : CString) (args : VaList) :
    Truncates buf size fmt args ↔ Fits buf size (complete args fmt).length :=
  ⟨fits_of_truncates, truncates_of_fits⟩

theorem vsnprintf_truncates_wide : ¬Truncates 0x20000000 16 wide ⟨fun _ => 0x41, fun _ => ⟨[], by decide⟩⟩ := by
  intro truncates
  have short := (fits_of_truncates truncates).1
  have long := complete_wide ⟨fun _ => 0x41, fun _ => ⟨[], by decide⟩⟩
  omega

end RtThread.Kservice
