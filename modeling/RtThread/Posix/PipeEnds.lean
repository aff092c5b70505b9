import RtThread.Drivers.RingBufferCalls
import RtThread.Lib.Throughout

/-! The ends of a pipe: `pipe_fops_open` and `pipe_fops_close` of `pipe.c`, and what a read that finds nothing makes of
the flag of the writers. -/

set_option autoImplicit false
namespace RtThread.Posix.PipeEnds
open Lib Drivers

def oRdonly : UInt32 := 0
def oWronly : UInt32 := 1
def oAccmode : UInt32 := 3
def oNonblock : UInt32 := 2048

def IsReader (flags : UInt32) : Prop := flags &&& oAccmode = oRdonly
def IsWriter (flags : UInt32) : Prop := flags &&& oAccmode = oWronly

instance (flags : UInt32) : Decidable (IsReader flags) := by
  unfold IsReader
  infer_instance

instance (flags : UInt32) : Decidable (IsWriter flags) := by
  unfold IsWriter
  infer_instance

/-- `rt_pipe_t` with the flags of the open descriptors, as many as `ref_count`. `early` notes that a blocking read has
returned 0 though there were bytes to read or a descriptor open for writing. -/
structure Ends where
  reader : Bool
  writer : Bool
  fifo : Option Ringbuffer
  isNamed : Bool
  alive : Bool
  files : List UInt32
  early : Bool

inductive EndsAction where
  /-- `pool` is the memory for the ring buffer, if there is some -/
  | open (flags : UInt32) (pool : Option (Nat → UInt8))
  | close (flags : UInt32)
  /-- a turn of the loop of `pipe_fops_read` -/
  | read (flags : UInt32) (buf : Nat → UInt8) (count : UInt32)
  /-- a turn of the loop of `pipe_fops_write` -/
  | write (flags : UInt32) (buf : Nat → UInt8) (count : UInt32)

namespace Ends

def create (isNamed : Bool) : Ends where
  reader := false
  writer := false
  fifo := none
  isNamed := isNamed
  alive := true
  files := []
  early := false

/-- `pipe_fops_open`. A descriptor that could not be opened is not among the open ones. -/
def pipeFopsOpen (bufsz : UInt32) (s : Ends) (flags : UInt32) (pool : Option (Nat → UInt8)) : Ends :=
  let reader := if flags &&& oAccmode = oRdonly then true else s.reader
  let writer := if flags &&& oAccmode = oWronly then true else s.writer
  let refCount := s.files.length + 1
  if refCount = 1 then
    match pool with
    | some pool =>
      { s with
        reader := reader
        writer := writer
        fifo := some (rtRingbufferInit pool bufsz)
        files := flags :: s.files }
    | none => { s with reader := reader, writer := writer, fifo := none }
  else { s with reader := reader, writer := writer, files := flags :: s.files }

def pipeFopsClose (s : Ends) (flags : UInt32) : Ends :=
  let refCount := s.files.length
  { s with
    reader := if flags &&& oRdonly = oRdonly then false else s.reader
    writer := if flags &&& oWronly = oWronly then false else s.writer
    fifo := if refCount = 1 then none else s.fifo
    alive := if refCount = 1 ∧ s.isNamed = false then false else s.alive
    files := s.files.erase flags }

def content (s : Ends) : List UInt8 := (s.fifo.map Ringbuffer.content).getD []

def AtEnd (s : Ends) : Prop := s.content = [] ∧ ∀ flags ∈ s.files, ¬IsWriter flags

-- over the list of the open files, not over every `UInt32`
instance (s : Ends) : Decidable s.AtEnd :=
  @instDecidableAnd _ _ inferInstance (List.decidableBAll (fun flags => ¬IsWriter flags) s.files)

def step (bufsz : UInt32) (s : Ends) : EndsAction → Option Ends
  | .open flags pool =>
    if s.alive = true ∧ (IsReader flags ∨ IsWriter flags) then some (s.pipeFopsOpen bufsz flags pool) else none
  | .close flags => if flags ∈ s.files then some (s.pipeFopsClose flags) else none
  | .read flags buf count =>
    if flags ∈ s.files ∧ IsReader flags then
      s.fifo.map fun fifo =>
        { s with
          fifo := some (rtRingbufferGet fifo buf count).1
          early := s.early || decide (flags &&& oNonblock = 0 ∧ (rtRingbufferGet fifo buf count).2.2 = 0 ∧
            s.writer = false ∧ ¬s.AtEnd) }
    else none
  | .write flags buf count =>
    if flags ∈ s.files ∧ IsWriter flags then
      s.fifo.map fun fifo => { s with fifo := some (rtRingbufferPut fifo buf count).1 }
    else none

/-- The flags tell which ends are open, and no blocking read has returned 0 early. -/
structure Sound (s : Ends) : Prop where
  reader : s.alive = true → (s.reader = true ↔ ∃ flags ∈ s.files, IsReader flags)
  writer : s.alive = true → (s.writer = true ↔ ∃ flags ∈ s.files, IsWriter flags)
  early : s.early = false

/-- The last one opens or closes each end: a close leaves no reader, a close of a writer leaves no writer. The first
open gets a ring buffer, and a blocking read of no bytes finds none, or a writer. -/
def Allowed (s : Ends) : EndsAction → Prop
  | .open _ pool => s.files = [] → pool.isSome = true
  | .close flags => (∀ other ∈ s.files.erase flags, ¬IsReader other) ∧
      (IsWriter flags → ∀ other ∈ s.files.erase flags, ¬IsWriter other)
  | .read flags _ count => flags &&& oNonblock = 0 → count = 0 → s.content = [] ∨ ∃ other ∈ s.files, IsWriter other
  | .write .. => True

instance (s : Ends) : (a : EndsAction) → Decidable (s.Allowed a)
  | .open .. => inferInstanceAs (Decidable (_ → _))
  | .close flags =>
    have others (p : UInt32 → Prop) [DecidablePred p] := List.decidableBAll p (s.files.erase flags)
    @instDecidableAnd _ _ (others fun other => ¬IsReader other)
      (@instDecidableForall _ _ _ (others fun other => ¬IsWriter other))
  | .read .. =>
    @instDecidableForall _ _ _ (@instDecidableForall _ _ _ (@instDecidableOr _ _ _ (List.decidableBEx IsWriter s.files)))
  | .write .. => isTrue trivial

structure Inv (s : Ends) : Prop where
  sound : s.Sound
  kinds : ∀ flags ∈ s.files, IsReader flags ∨ IsWriter flags
  fifo : ∀ fifo ∈ s.fifo, fifo.Sound
  alive : s.files ≠ [] → s.alive = true

end Ends

theorem reader_or_writer {flags : UInt32} (kind : IsReader flags ∨ IsWriter flags) :
    flags &&& oWronly = oWronly ↔ IsWriter flags := by
  have low : flags &&& oWronly = flags &&& oAccmode &&& oWronly := by
    rw [UInt32.and_assoc]
    rfl
  unfold IsReader IsWriter at *
  rw [low]
  obtain reader | writer := kind
  · rw [reader]
    decide
  · rw [writer]
    decide

namespace Ends
variable {bufsz : UInt32} {s s' : Ends} {flags : UInt32} {buf : Nat → UInt8} {count : UInt32}

theorem create_inv (isNamed : Bool) : (create isNamed).Inv where
  sound := {
    reader _ := ⟨nofun, nofun⟩
    writer _ := ⟨nofun, nofun⟩
    early := rfl }
  kinds _ inside := absurd inside List.not_mem_nil
  fifo _ none := nomatch none
  alive some := absurd rfl some

/-! ## Opens -/

theorem pipeFopsOpen_flags (bufsz : UInt32) (s : Ends) (flags : UInt32) (pool : Option (Nat → UInt8)) :
    (s.pipeFopsOpen bufsz flags pool).reader = (if IsReader flags then true else s.reader) ∧
      (s.pipeFopsOpen bufsz flags pool).writer = (if IsWriter flags then true else s.writer) ∧
      (s.pipeFopsOpen bufsz flags pool).alive = s.alive ∧ (s.pipeFopsOpen bufsz flags pool).early = s.early := by
  unfold pipeFopsOpen
  dsimp only
  split
  · cases pool <;> exact ⟨rfl, rfl, rfl, rfl⟩
  · exact ⟨rfl, rfl, rfl, rfl⟩

theorem pipeFopsOpen_files (bufsz flags : UInt32) {pool : Option (Nat → UInt8)} (memory : s.files = [] → pool.isSome = true) :
    (s.pipeFopsOpen bufsz flags pool).files = flags :: s.files := by
  unfold pipeFopsOpen
  dsimp only
  split
  next first =>
    have none : s.files = [] := List.eq_nil_of_length_eq_zero (by omega)
    obtain ⟨pool, rfl⟩ := Option.isSome_iff_exists.mp (memory none)
    rfl
  · rfl

theorem pipeFopsOpen_failed (none : s.files = []) : (s.pipeFopsOpen bufsz flags Option.none).files = [] := by
  unfold pipeFopsOpen
  dsimp only
  rw [if_pos (by rw [none]; rfl)]
  exact none

theorem pipeFopsOpen_fifo (least : Mem.Config.board.alignSize ≤ bufsz.toNat) (most : bufsz.toNat < 2 ^ 31)
    (pool : Option (Nat → UInt8)) (before : ∀ fifo ∈ s.fifo, fifo.Sound) :
    ∀ fifo ∈ (s.pipeFopsOpen bufsz flags pool).fifo, fifo.Sound := by
  unfold pipeFopsOpen
  dsimp only
  split
  · cases pool with
    | none => exact fun _ none => nomatch none
    | some pool =>
      rintro fifo ⟨⟩
      exact (rtRingbufferInit_sound pool least most).1
  · exact before

theorem exists_cons {kind : UInt32 → Prop} {flag : Bool} {files : List UInt32} [Decidable (kind flags)]
    (right : flag = true ↔ ∃ other ∈ files, kind other) :
    (if kind flags then true else flag) = true ↔ ∃ other ∈ flags :: files, kind other := by
  simp only [List.mem_cons, exists_eq_or_imp, ← right]
  by_cases own : kind flags
  · rw [if_pos own]
    exact iff_of_true rfl (Or.inl own)
  · rw [if_neg own, or_iff_right own]

theorem Inv.open (inv : s.Inv) (least : Mem.Config.board.alignSize ≤ bufsz.toNat) (most : bufsz.toNat < 2 ^ 31)
    (alive : s.alive = true) (kind : IsReader flags ∨ IsWriter flags) {pool : Option (Nat → UInt8)}
    (memory : s.files = [] → pool.isSome = true) : (s.pipeFopsOpen bufsz flags pool).Inv := by
  obtain ⟨reader, writer, same, early⟩ := pipeFopsOpen_flags bufsz s flags pool
  have files := pipeFopsOpen_files bufsz flags memory
  refine ⟨⟨fun _ => ?_, fun _ => ?_, early.trans inv.sound.early⟩, ?_, pipeFopsOpen_fifo least most pool inv.fifo,
    fun _ => same.trans alive⟩
  · rw [reader, files]
    exact exists_cons (inv.sound.reader alive)
  · rw [writer, files]
    exact exists_cons (inv.sound.writer alive)
  · rw [files]
    exact List.forall_mem_cons.mpr ⟨kind, inv.kinds⟩

/-! ## Closes -/

theorem Inv.close (inv : s.Inv) (inside : flags ∈ s.files) (last : s.Allowed (.close flags)) :
    (s.pipeFopsClose flags).Inv := by
  obtain ⟨noReader, noWriter⟩ := last
  have kind := inv.kinds flags inside
  have some : s.files ≠ [] := List.ne_nil_of_mem inside
  refine ⟨⟨fun _ => ?_, fun _ => ?_, inv.sound.early⟩, fun other left => inv.kinds other (List.mem_of_mem_erase left), ?_, ?_⟩
  · refine iff_of_false ?_ fun ⟨other, left, reader⟩ => noReader other left reader
    exact Bool.not_eq_true _ ▸ if_pos UInt32.and_zero
  · change (if flags &&& oWronly = oWronly then false else s.writer) = true ↔ ∃ other ∈ s.files.erase flags, IsWriter other
    by_cases writer : IsWriter flags
    · rw [if_pos ((reader_or_writer kind).mpr writer)]
      exact iff_of_false Bool.false_ne_true fun ⟨other, left, also⟩ => noWriter writer other left also
    · rw [if_neg (mt (reader_or_writer kind).mp writer), inv.sound.writer (inv.alive some)]
      refine exists_congr fun other => and_congr_left fun also => ?_
      have differ : other ≠ flags := fun same => writer (same ▸ also)
      exact (List.mem_erase_of_ne differ).symm
  · intro fifo held
    unfold pipeFopsClose at held
    dsimp only at held
    split at held
    · cases held
    · exact inv.fifo fifo held
  · intro left
    change (if s.files.length = 1 ∧ s.isNamed = false then false else s.alive) = true
    have more : s.files.length ≠ 1 := by
      intro one
      refine left (List.eq_nil_of_length_eq_zero ?_)
      change (s.files.erase flags).length = 0
      rw [List.length_erase_of_mem inside, one]
    rw [if_neg fun both => more both.1]
    exact inv.alive some

/-! ## Reads and writes -/

theorem content_some {fifo : Ringbuffer} (held : s.fifo = some fifo) : s.content = fifo.content := by
  rw [content, held]
  rfl

theorem Inv.keep (inv : s.Inv) {fifo : Ringbuffer} (sound : fifo.Sound) {early : Bool} (right : early = false) :
    { s with fifo := some fifo, early := early }.Inv where
  sound := { reader := inv.sound.reader, writer := inv.sound.writer, early := right }
  kinds := inv.kinds
  fifo := by
    rintro _ ⟨⟩
    exact sound
  alive := inv.alive

theorem get_zero {fifo : Ringbuffer} (sound : fifo.Sound) :
    (rtRingbufferGet fifo buf count).2.2 = 0 ↔ fifo.content = [] ∨ count = 0 := by
  obtain ⟨-, -, -, taken, -⟩ := get_fifo sound buf count
  rw [← UInt32.toNat_inj, taken]
  change _ = 0 ↔ _
  rw [List.length_eq_zero_iff, List.take_eq_nil_iff, or_comm]
  exact or_congr_right ⟨fun zero => UInt32.toNat_inj.mp zero, fun zero => congrArg UInt32.toNat zero⟩

theorem early_read (inv : s.Inv) (inside : flags ∈ s.files) {fifo : Ringbuffer} (held : s.fifo = some fifo) :
    (flags &&& oNonblock = 0 ∧ (rtRingbufferGet fifo buf count).2.2 = 0 ∧ s.writer = false ∧ ¬s.AtEnd) ↔
      ¬s.Allowed (.read flags buf count) := by
  have alive := inv.alive (List.ne_nil_of_mem inside)
  have closed : s.writer = false ↔ ¬∃ other ∈ s.files, IsWriter other := by
    rw [← inv.sound.writer alive, Bool.not_eq_true]
  have noWriter : (¬∃ other ∈ s.files, IsWriter other) ↔ ∀ other ∈ s.files, ¬IsWriter other := by
    simp only [not_exists, not_and]
  change _ ↔ ¬(flags &&& oNonblock = 0 → count = 0 → s.content = [] ∨ ∃ other ∈ s.files, IsWriter other)
  rw [AtEnd, get_zero (inv.fifo fifo held), closed, ← content_some held, ← noWriter]
  generalize (∃ other ∈ s.files, IsWriter other) = some
  tauto

theorem Inv.step (least : Mem.Config.board.alignSize ≤ bufsz.toNat) (most : bufsz.toNat < 2 ^ 31) (inv : s.Inv)
    (a : EndsAction) (allowed : s.Allowed a) (taken : s.step bufsz a = some s') : s'.Inv := by
  cases a with
  | «open» flags pool =>
    obtain ⟨⟨alive, kind⟩, ⟨⟩⟩ := Option.ite_none_right_eq_some.mp taken
    exact inv.open least most alive kind allowed
  | close flags =>
    obtain ⟨inside, ⟨⟩⟩ := Option.ite_none_right_eq_some.mp taken
    exact inv.close inside allowed
  | read flags buf count =>
    obtain ⟨⟨inside, -⟩, got⟩ := Option.ite_none_right_eq_some.mp taken
    obtain ⟨fifo, held, rfl⟩ := Option.map_eq_some_iff.mp got
    refine inv.keep (get_fifo (inv.fifo fifo held) buf count).1 ?_
    rw [inv.sound.early, Bool.false_or, decide_eq_false_iff_not, early_read inv inside held]
    exact not_not.mpr allowed
  | write flags buf count =>
    obtain ⟨-, put⟩ := Option.ite_none_right_eq_some.mp taken
    obtain ⟨fifo, held, rfl⟩ := Option.map_eq_some_iff.mp put
    exact inv.keep (put_fifo (inv.fifo fifo held) buf count).1 inv.sound.early

theorem needed (inv : s.Inv) (a : EndsAction) (taken : s.step bufsz a = some s') (sound : s'.Sound) : s.Allowed a := by
  cases a with
  | «open» flags pool =>
    obtain ⟨⟨alive, kind⟩, ⟨⟩⟩ := Option.ite_none_right_eq_some.mp taken
    intro none
    refine Option.isSome_iff_ne_none.mpr ?_
    rintro rfl
    obtain ⟨reader, writer, same, -⟩ := pipeFopsOpen_flags bufsz s flags Option.none
    have nobody := @pipeFopsOpen_failed bufsz s flags none
    obtain own | own := kind
    · rw [if_pos own] at reader
      obtain ⟨_, inside, -⟩ := (sound.reader (same.trans alive)).mp reader
      exact absurd inside (nobody ▸ List.not_mem_nil)
    · rw [if_pos own] at writer
      obtain ⟨_, inside, -⟩ := (sound.writer (same.trans alive)).mp writer
      exact absurd inside (nobody ▸ List.not_mem_nil)
  | close flags =>
    obtain ⟨inside, ⟨⟩⟩ := Option.ite_none_right_eq_some.mp taken
    have kind := inv.kinds flags inside
    have lives : ∀ other ∈ s.files.erase flags, (s.pipeFopsClose flags).alive = true := by
      intro other left
      have more : s.files.length ≠ 1 := by
        intro one
        have short := List.length_erase_of_mem inside
        have some := List.length_pos_of_mem left
        omega
      refine (if_neg fun both => more both.1).trans (inv.alive (List.ne_nil_of_mem inside))
    refine ⟨fun other left reader => ?_, fun own other left writer => ?_⟩
    · have set := (sound.reader (lives other left)).mpr ⟨other, left, reader⟩
      exact Bool.false_ne_true ((if_pos UInt32.and_zero).symm.trans set)
    · have set := (sound.writer (lives other left)).mpr ⟨other, left, writer⟩
      exact Bool.false_ne_true ((if_pos ((reader_or_writer kind).mpr own)).symm.trans set)
  | read flags buf count =>
    obtain ⟨⟨inside, -⟩, got⟩ := Option.ite_none_right_eq_some.mp taken
    obtain ⟨fifo, held, rfl⟩ := Option.map_eq_some_iff.mp got
    have right := sound.early
    dsimp only at right
    rw [inv.sound.early, Bool.false_or, decide_eq_false_iff_not, early_read inv inside held] at right
    exact not_not.mp right
  | write => trivial

/-! ## Runs -/

/-- From the creation of a pipe, the flags tell which ends are open and reads return 0 only at the end, just if every
step is allowed. -/
theorem tracked_iff (isNamed : Bool) (bufsz : UInt32) (actions : List EndsAction)
    (least : Mem.Config.board.alignSize ≤ bufsz.toNat) (most : bufsz.toNat < 2 ^ 31) :
    Throughout (fun s a s' => s.step bufsz a = some s') (create isNamed) actions Sound ↔
      EachStep (fun s a s' => s.step bufsz a = some s') (create isNamed) actions Allowed :=
  throughout_iff_eachStep (fun _ inv => inv.sound) (fun _ a _ inv allowed taken => inv.step least most a allowed taken)
    (fun _ a _ inv taken sound => needed inv a taken sound) (create_inv isNamed)

def readThenClosed : List EndsAction :=
  [.open oRdonly (some fun _ => 0), .open oWronly none, .write oWronly (fun _ => 7) 3, .read oRdonly (fun _ => 0) 2,
    .close oRdonly]

theorem tracked_readThenClosed :
    Throughout (fun s a s' => s.step 512 a = some s') (create false) readThenClosed Sound ∧
      (readThenClosed.foldlM (step 512) (create false)).any (fun s => s.writer && s.content == [7]) = true := by
  refine ⟨(tracked_iff false 512 readThenClosed (by decide) (by decide)).mpr ?_, by decide +kernel⟩
  have all : eachAllowed (step 512) (fun s a => decide (s.Allowed a)) (create false) readThenClosed = true := by
    decide +kernel
  have each := eachStep_of_eachAllowed all
  intro before a mid next inside run taken
  exact of_decide_eq_true (each before a mid next inside run taken)

def twoWriters : List EndsAction :=
  [.open oRdonly (some fun _ => 0), .open oWronly none, .open oWronly none, .close oWronly, .write oWronly (fun _ => 7) 3,
    .read oRdonly (fun _ => 0) 3, .read oRdonly (fun _ => 0) 3]

theorem twoWriters_not_tracked :
    ¬Throughout (fun s a s' => s.step 512 a = some s') (create false) twoWriters Sound := by
  intro all
  have reached : (twoWriters.foldlM (step 512) (create false)).any Ends.early = true := by decide +kernel
  obtain ⟨s, run, early⟩ := (Option.any_eq_true _ _).mp reached
  have sound : s.Sound := all _ s (List.prefix_refl _) (run_of_foldlM run)
  exact Bool.false_ne_true (sound.early.symm.trans early)

end Ends
end RtThread.Posix.PipeEnds
