import RtThread.Vbus.Ring
import RtThread.Lib.Throughout

/-! The packets come out of the ring as they went in, and the out thread does not sleep when there is room, as long as
the in thread looks at `blocked` after the out thread has set it. -/

set_option autoImplicit false
namespace RtThread.Vbus
open Lib

namespace VbusLink
variable (c : VbusConfig) (s : VbusLink)

/-- The out thread waits for room that is there, and nothing will wake it: the in thread sleeps, has nothing left to read,
and no interrupt is pending. -/
def Stuck : Prop :=
  ∃ pkg, s.out = some ⟨pkg, .suspended⟩ ∧ (pkg.bnr : Int) ≤ busRingSpaceNr c s.ring ∧
    s.inn = .wait ∧ s.inSem = 0 ∧ s.ring.getIdx = s.ring.putIdx ∧ s.outIrq = false ∧ s.inIrq = false

def Quiet : Prop := s.out.isNone ∧ s.inn = .wait ∧ s.inSem = 0 ∧ s.inIrq = false

/-- The packets are taken as they are sent, all of them in the end; only free blocks are written; and the out thread is
not stuck. -/
structure Sound : Prop where
  ordered : s.taken <+: s.sent
  complete : s.Quiet → s.taken = s.sent
  tame : s.wild = false
  awake : ¬s.Stuck c

/-- The in thread is yet to look at `blocked`. -/
def InPc.looks : InPc → Bool
  | .push _ _ => true
  | .unblock => true
  | _ => false

def OutStage.waits : OutStage → Bool
  | .tick => true
  | .suspend => true
  | .suspended => true
  | _ => false

def waits : Bool :=
  match s.out with
  | some job => OutStage.waits job.stage
  | none => false

/-- When the out thread sets `blocked`, there is still a packet to be read, or the in thread is yet to look, or an
interrupt is pending. The in thread drops no packet, and one that it takes without a look at `blocked` is not the last
while the out thread waits. -/
def Allowed : VbusAction → Prop
  | .goOut => s.out.map OutJob.stage = some .block →
      s.ring.getIdx ≠ s.ring.putIdx ∨ InPc.looks s.inn = true ∨ s.outIrq = true
  | .goIn mallocFails =>
    match s.inn with
    | .read => if s.inId = 0 then s.inSize ≤ 60 else mallocFails = false
    | .skip size => s.waits = true → (s.consume c size).getIdx ≠ s.ring.putIdx ∨ s.outIrq = true
    | _ => True
  | _ => True

instance (a : VbusAction) : Decidable (s.Allowed c a) := by
  unfold Allowed
  split
  case h_2 => split <;> infer_instance
  all_goals infer_instance

end VbusLink

variable {c : VbusConfig} {s s' : VbusLink} {ring ring' : VbusRing} {pkgs : List VbusPkg} {pkg : VbusPkg}

/-! ## Packets in the blocks -/

theorem len2bnr_pos (len : Nat) : 0 < len2bnr len := by
  unfold len2bnr blkHeadSz blkSz
  omega

theorem len_le_blocks (len : Nat) : len + 4 ≤ len2bnr len * 64 := by
  unfold len2bnr blkHeadSz blkSz
  omega

def bnrs : List VbusPkg → Nat
  | [] => 0
  | pkg :: pkgs => pkg.bnr + bnrs pkgs

theorem bnrs_append (pkgs more : List VbusPkg) : bnrs (pkgs ++ more) = bnrs pkgs + bnrs more := by
  induction pkgs with
  | nil => simp [bnrs]
  | cons pkg pkgs ih => simp only [List.cons_append, bnrs, ih]; omega

/-- The bytes of the blocks, from the block `b` on and round the ring -/
def blkBytes (c : VbusConfig) (blks : Nat → UInt8) (b off count : Nat) : List UInt8 :=
  window blks (c.blkNr * 64) (b * 64 + off) count

def VbusPkg.headBytes (pkg : VbusPkg) : List UInt8 := [pkg.id, pkg.prio, UInt8.ofNat pkg.data.length]

structure PacketAt (c : VbusConfig) (blks : Nat → UInt8) (b : Nat) (pkg : VbusPkg) : Prop where
  head : blkBytes c blks b 0 3 = pkg.headBytes
  data : blkBytes c blks b 4 pkg.data.length = pkg.data

def PacketsAt (c : VbusConfig) (blks : Nat → UInt8) : Nat → List VbusPkg → Prop
  | _, [] => True
  | b, pkg :: pkgs => PacketAt c blks b pkg ∧ PacketsAt c blks (b + pkg.bnr) pkgs

theorem blkBytes_congr {blks : Nat → UInt8} {b b' off count : Nat} (same : b % c.blkNr = b' % c.blkNr) :
    blkBytes c blks b off count = blkBytes c blks b' off count := by
  refine window_congr ?_
  rw [Nat.add_mod, Nat.mul_mod_mul_right, same, ← Nat.mul_mod_mul_right, ← Nat.add_mod]

theorem PacketAt.congr {blks : Nat → UInt8} {b b' : Nat} (at_ : PacketAt c blks b pkg) (same : b % c.blkNr = b' % c.blkNr) :
    PacketAt c blks b' pkg where
  head := by rw [← blkBytes_congr same]; exact at_.head
  data := by rw [← blkBytes_congr same]; exact at_.data

theorem PacketsAt.congr {blks : Nat → UInt8} {b b' : Nat} (at_ : PacketsAt c blks b pkgs)
    (same : b % c.blkNr = b' % c.blkNr) : PacketsAt c blks b' pkgs := by
  induction pkgs generalizing b b' with
  | nil => trivial
  | cons pkg pkgs ih => exact ⟨at_.1.congr same, ih at_.2 (by rw [Nat.add_mod, same, ← Nat.add_mod])⟩

theorem PacketsAt.append {blks : Nat → UInt8} {b : Nat} (first : PacketsAt c blks b pkgs)
    (last : PacketAt c blks (b + bnrs pkgs) pkg) : PacketsAt c blks b (pkgs ++ [pkg]) := by
  induction pkgs generalizing b with
  | nil => exact ⟨last, trivial⟩
  | cons p pkgs ih =>
    refine ⟨first.1, ih first.2 ?_⟩
    rw [Nat.add_assoc]
    exact last

theorem PacketsAt.kept {blks blks' : Nat → UInt8} {b start count : Nat} (at_ : PacketsAt c blks b pkgs)
    (low : start ≤ b * 64) (high : (b + bnrs pkgs) * 64 ≤ start + count)
    (same : window blks' (c.blkNr * 64) start count = window blks (c.blkNr * 64) start count) :
    PacketsAt c blks' b pkgs := by
  induction pkgs generalizing b with
  | nil => trivial
  | cons pkg pkgs ih =>
    obtain ⟨⟨head, data⟩, rest⟩ := at_
    rw [bnrs] at high
    have inside := len_le_blocks pkg.data.length
    have whole : pkg.bnr = len2bnr pkg.data.length := rfl
    have part : ∀ off n, off + n ≤ pkg.bnr * 64 → blkBytes c blks' b off n = blkBytes c blks b off n := fun off n fits => by
      have parts := window_part same (by omega : b * 64 - start + off + n ≤ count)
      rw [show start + (b * 64 - start + off) = b * 64 + off by omega] at parts
      exact parts
    refine ⟨⟨?_, ?_⟩, ih rest (by omega) (by omega)⟩
    · rw [part 0 3 (by omega)]
      exact head
    · rw [part 4 _ (by omega)]
      exact data

/-! ## The ring and the packets in it -/

structure Laid (c : VbusConfig) (ring : VbusRing) (pkgs : List VbusPkg) : Prop where
  getIn : ring.getIdx < c.blkNr
  ends : ring.putIdx = nextIdx c ring.getIdx (bnrs pkgs)
  room : bnrs pkgs < c.blkNr
  held : PacketsAt c ring.blks ring.getIdx pkgs

theorem nextIdx_mod {idx bnr : Nat} : nextIdx c idx bnr % c.blkNr = (idx + bnr) % c.blkNr := by
  unfold nextIdx
  split
  · rw [Nat.mod_eq_sub_mod (by omega : idx + bnr ≥ c.blkNr)]
  · rfl

theorem nextIdx_lt {idx bnr : Nat} (inside : idx < c.blkNr) (fewer : bnr ≤ c.blkNr) : nextIdx c idx bnr < c.blkNr := by
  unfold nextIdx
  split <;> omega

namespace Laid
variable (laid : Laid c ring pkgs)
include laid

theorem putIn : ring.putIdx < c.blkNr := by
  rw [laid.ends]
  exact nextIdx_lt laid.getIn (Nat.le_of_lt laid.room)

theorem put_mod : ring.putIdx % c.blkNr = (ring.getIdx + bnrs pkgs) % c.blkNr := by
  rw [laid.ends, nextIdx_mod]

theorem space : busRingSpaceNr c ring = (c.blkNr : Int) - 1 - bnrs pkgs := by
  have ends := laid.ends
  have getIn := laid.getIn
  have room := laid.room
  unfold nextIdx at ends
  unfold busRingSpaceNr
  dsimp only
  split at ends <;> split <;> omega

theorem empty_iff : ring.getIdx = ring.putIdx ↔ pkgs = [] := by
  have ends := laid.ends
  have getIn := laid.getIn
  have room := laid.room
  constructor
  · intro same
    cases pkgs with
    | nil => rfl
    | cons pkg pkgs =>
      have some_ : 0 < pkg.bnr := len2bnr_pos _
      rw [bnrs] at ends room
      unfold nextIdx at ends
      split at ends <;> omega
  · rintro rfl
    rw [ends, bnrs]
    unfold nextIdx
    split <;> omega

theorem publish (fits : bnrs pkgs + pkg.bnr < c.blkNr) (packet : PacketAt c ring.blks ring.putIdx pkg) :
    Laid c { ring with putIdx := nextIdx c ring.putIdx pkg.bnr } (pkgs ++ [pkg]) := by
  have all : bnrs (pkgs ++ [pkg]) = bnrs pkgs + pkg.bnr := bnrs_append pkgs [pkg]
  refine ⟨laid.getIn, ?_, by omega, laid.held.append (packet.congr laid.put_mod)⟩
  have ends := laid.ends
  have getIn := laid.getIn
  dsimp only
  rw [all, ends]
  unfold nextIdx
  split <;> split <;> split <;> omega

theorem before {blks : Nat → UInt8} {off : Nat} {data : List UInt8}
    (written : Written ring.blks blks (c.blkNr * 64) (ring.putIdx * 64 + off) data)
    (fits : bnrs pkgs * 64 + off + data.length ≤ c.blkNr * 64) :
    window blks (c.blkNr * 64) (ring.getIdx * 64) (bnrs pkgs * 64 + off) =
      window ring.blks (c.blkNr * 64) (ring.getIdx * 64) (bnrs pkgs * 64 + off) := by
  refine written.before ?_ fits
  rw [← Nat.add_assoc, ← Nat.add_mul, Nat.add_mod, Nat.mul_mod_mul_right, ← laid.put_mod, ← Nat.mul_mod_mul_right,
    ← Nat.add_mod]

theorem kept {blks : Nat → UInt8} {off : Nat} {data : List UInt8}
    (written : Written ring.blks blks (c.blkNr * 64) (ring.putIdx * 64 + off) data)
    (fits : bnrs pkgs * 64 + off + data.length ≤ c.blkNr * 64) : Laid c { ring with blks } pkgs :=
  ⟨laid.getIn, laid.ends, laid.room, laid.held.kept (Nat.le_refl _) (by omega) (laid.before written fits)⟩

theorem next_kept {blks : Nat → UInt8} {off n m : Nat} {data : List UInt8}
    (written : Written ring.blks blks (c.blkNr * 64) (ring.putIdx * 64 + off) data)
    (fits : bnrs pkgs * 64 + off + data.length ≤ c.blkNr * 64) (inside : n + m ≤ off) :
    blkBytes c blks ring.putIdx n m = blkBytes c ring.blks ring.putIdx n m := by
  have part := window_part (laid.before written fits) (by omega : bnrs pkgs * 64 + n + m ≤ bnrs pkgs * 64 + off)
  rw [show ring.getIdx * 64 + (bnrs pkgs * 64 + n) = (ring.getIdx + bnrs pkgs) * 64 + n by omega] at part
  rw [blkBytes_congr laid.put_mod, blkBytes_congr laid.put_mod]
  exact part

theorem free {i : Nat} (fits : bnrs pkgs + pkg.bnr < c.blkNr)
    (inside : ring.putIdx ≤ i ∧ i < c.blkNr ∧ i < ring.putIdx + pkg.bnr ∨ i + c.blkNr < ring.putIdx + pkg.bnr) :
    ring.free c i = true := by
  have ends := laid.ends
  have getIn := laid.getIn
  rw [VbusRing.free, Bool.and_eq_true, decide_eq_true_eq]
  unfold nextIdx at ends
  constructor
  · split at ends <;> omega
  · split at ends <;> split <;> simp <;> omega

theorem writable_tail {off count : Nat} (fits : bnrs pkgs + pkg.bnr < c.blkNr) (inside : off + count ≤ pkg.bnr * 64)
    (straight : ring.putIdx * 64 + off + count ≤ c.blkNr * 64) : ring.writable c (ring.putIdx * 64 + off) count = true := by
  refine List.all_eq_true.mpr fun j small => laid.free fits (.inl ?_)
  have short := List.mem_range.mp small
  unfold blkSz
  omega

theorem writable_rest {count : Nat} (fits : bnrs pkgs + pkg.bnr < c.blkNr)
    (inside : count = 0 ∨ count + c.blkNr * 64 ≤ (ring.putIdx + pkg.bnr) * 64) : ring.writable c 0 count = true := by
  refine List.all_eq_true.mpr fun j small => laid.free fits (.inr ?_)
  have short := List.mem_range.mp small
  unfold blkSz
  omega

end Laid

theorem Laid.consume (laid : Laid c ring (pkg :: pkgs)) :
    Laid c { ring with getIdx := nextIdx c ring.getIdx pkg.bnr } pkgs := by
  have room := laid.room
  have getIn := laid.getIn
  have ends := laid.ends
  rw [bnrs] at room ends
  refine ⟨nextIdx_lt getIn (by omega), ?_, by omega, laid.held.2.congr nextIdx_mod.symm⟩
  dsimp only
  rw [ends]
  unfold nextIdx
  split <;> split <;> split <;> omega

/-! ## Data in two pieces -/

theorem tailSz_spec {idx : Nat} (inside : idx < c.blkNr) (len : Nat) :
    tailSz c idx len ≤ len ∧ idx * 64 + 4 + tailSz c idx len ≤ c.blkNr * 64 ∧
      (tailSz c idx len = len ∨ idx * 64 + 4 + tailSz c idx len = c.blkNr * 64) := by
  have blocks := len_le_blocks len
  unfold tailSz blkSz blkHeadSz
  split
  · dsimp only
    split <;> omega
  · omega

theorem Written.rest {blks blks' : Nat → UInt8} {idx : Nat} {data : List UInt8} (inside : idx < c.blkNr)
    (written : Written blks blks' (c.blkNr * 64) 0 (data.drop (tailSz c idx data.length))) :
    Written blks blks' (c.blkNr * 64) (idx * 64 + (4 + tailSz c idx data.length))
      (data.drop (tailSz c idx data.length)) := by
  obtain ⟨-, -, whole | full⟩ := tailSz_spec inside data.length
  · rw [whole, List.drop_length] at written ⊢
    exact ⟨fun i inside => absurd inside (Nat.not_lt_zero i), fun a _ => written.rest a nofun⟩
  · refine written.congr ?_
    rw [← Nat.add_assoc, full, Nat.mod_self, Nat.zero_mod]

namespace VbusLink

/-! ## What the two threads carry -/

def coming : InPc → List VbusPkg → List (UInt8 × List UInt8)
  | .skip _, pkgs => pkgs.tail.map VbusPkg.content
  | .push id data, pkgs => (id, data) :: pkgs.map VbusPkg.content
  | _, pkgs => pkgs.map VbusPkg.content

def pending : Option OutJob → List (UInt8 × List UInt8)
  | none => []
  | some ⟨_, .notify⟩ => []
  | some ⟨pkg, _⟩ => [pkg.content]

def Reads (c : VbusConfig) (getIdx : Nat) (pkgs : List VbusPkg) : InPc → Prop
  | .read => pkgs ≠ []
  | .skip size => ∃ pkg rest, pkgs = pkg :: rest ∧ size = pkg.data.length
  | .copyTail id size => ∃ pkg rest, pkgs = pkg :: rest ∧ id = pkg.id ∧ size = pkg.data.length
  | .copyRest id size data =>
    ∃ pkg rest, pkgs = pkg :: rest ∧ id = pkg.id ∧ size = pkg.data.length ∧ data = pkg.data.take (tailSz c getIdx size)
  | .advance id size data => ∃ pkg rest, pkgs = pkg :: rest ∧ id = pkg.id ∧ size = pkg.data.length ∧ data = pkg.data
  | _ => True

def Writes (c : VbusConfig) (ring : VbusRing) (pkgs : List VbusPkg) (pkg : VbusPkg) : OutStage → Prop
  | .head => bnrs pkgs + pkg.bnr < c.blkNr
  | .copyTail => bnrs pkgs + pkg.bnr < c.blkNr ∧ blkBytes c ring.blks ring.putIdx 0 3 = pkg.headBytes
  | .copyRest => bnrs pkgs + pkg.bnr < c.blkNr ∧ blkBytes c ring.blks ring.putIdx 0 3 = pkg.headBytes ∧
      blkBytes c ring.blks ring.putIdx 4 (tailSz c ring.putIdx pkg.data.length) =
        pkg.data.take (tailSz c ring.putIdx pkg.data.length)
  | .publish => bnrs pkgs + pkg.bnr < c.blkNr ∧ PacketAt c ring.blks ring.putIdx pkg
  | _ => True

structure Carries (c : VbusConfig) (s : VbusLink) (pkgs : List VbusPkg) : Prop where
  laid : Laid c s.ring pkgs
  reads : Reads c s.ring.getIdx pkgs s.inn
  writes : ∀ pkg stage, s.out = some ⟨pkg, stage⟩ → Writes c s.ring pkgs pkg stage
  connected : ∀ pkg ∈ pkgs, c.chnConnected pkg.id = true
  joins : ∀ pkg stage, s.out = some ⟨pkg, stage⟩ → c.chnConnected pkg.id = true
  order : s.sent = s.taken ++ coming s.inn pkgs ++ pending s.out

theorem Reads.append {getIdx : Nat} {pc : InPc} (reads : Reads c getIdx pkgs pc) : Reads c getIdx (pkgs ++ [pkg]) pc := by
  cases pc with
  | read => simp [Reads]
  | skip size | copyTail id size | copyRest id size data | advance id size data =>
    obtain ⟨first, rest, rfl, known⟩ := reads
    exact ⟨first, rest ++ [pkg], rfl, known⟩
  | _ => trivial

theorem Reads.coming_append {getIdx : Nat} {pc : InPc} (reads : Reads c getIdx pkgs pc) :
    coming pc (pkgs ++ [pkg]) = coming pc pkgs ++ [pkg.content] := by
  cases pc with
  | skip size =>
    obtain ⟨first, rest, rfl, known⟩ := reads
    simp [coming]
  | _ => simp [coming]

/-! ## The steps of the out thread -/

theorem write_tail (off : Nat) (bytes : List UInt8) (laid : Laid c s.ring pkgs) (fits : bnrs pkgs + pkg.bnr < c.blkNr)
    (inside : off + bytes.length ≤ pkg.bnr * 64) (straight : s.ring.putIdx * 64 + off + bytes.length ≤ c.blkNr * 64) :
    s.write c (s.ring.putIdx * 64 + off) bytes =
        { s with ring := { s.ring with blks := setCells s.ring.blks (s.ring.putIdx * 64 + off) bytes } } ∧
      Written s.ring.blks (setCells s.ring.blks (s.ring.putIdx * 64 + off) bytes) (c.blkNr * 64)
        (s.ring.putIdx * 64 + off) bytes := by
  refine ⟨?_, setCells_written straight⟩
  rw [write, laid.writable_tail fits inside straight]
  simp

theorem write_rest (laid : Laid c s.ring pkgs) (fits : bnrs pkgs + pkg.bnr < c.blkNr) :
    let data := pkg.data.drop (tailSz c s.ring.putIdx pkg.data.length)
    s.write c 0 data = { s with ring := { s.ring with blks := setCells s.ring.blks 0 data } } ∧
      Written s.ring.blks (setCells s.ring.blks 0 data) (c.blkNr * 64)
        (s.ring.putIdx * 64 + (4 + tailSz c s.ring.putIdx pkg.data.length)) data := by
  intro data
  have putIn := laid.putIn
  have blocks := len_le_blocks pkg.data.length
  have bnr : pkg.bnr = len2bnr pkg.data.length := rfl
  obtain ⟨less, -, tail⟩ := tailSz_spec putIn pkg.data.length
  have length : data.length = pkg.data.length - tailSz c s.ring.putIdx pkg.data.length := List.length_drop
  refine ⟨?_, Written.rest putIn (setCells_written (by omega))⟩
  rw [write, laid.writable_rest fits (by omega)]
  simp

theorem Carries.stage {stage stage' : OutStage} (carries : Carries c s pkgs) (isJob : s.out = some ⟨pkg, stage⟩)
    (same : pending (some ⟨pkg, stage'⟩) = pending (some ⟨pkg, stage⟩)) (writes : Writes c s.ring pkgs pkg stage') :
    Carries c (s.jump pkg stage') pkgs where
  laid := carries.laid
  reads := carries.reads
  writes _ _ isNew := by
    cases isNew
    exact writes
  connected := carries.connected
  joins _ _ isNew := by
    cases isNew
    exact carries.joins _ _ isJob
  order := by
    have order := carries.order
    rw [isJob] at order
    exact order.trans (congrArg _ same.symm)

theorem Carries.blocked (carries : Carries c s pkgs) (blocked : Bool) :
    Carries c { s with ring := { s.ring with blocked } } pkgs where
  laid := ⟨carries.laid.getIn, carries.laid.ends, carries.laid.room, carries.laid.held⟩
  reads := carries.reads
  writes pkg stage isJob := by
    have writes := carries.writes pkg stage isJob
    cases stage <;> exact writes
  connected := carries.connected
  joins := carries.joins
  order := carries.order

theorem Carries.written {stage stage' : OutStage} {blks : Nat → UInt8} {off : Nat} {bytes : List UInt8}
    (carries : Carries c s pkgs) (isJob : s.out = some ⟨pkg, stage⟩)
    (same : pending (some ⟨pkg, stage'⟩) = pending (some ⟨pkg, stage⟩))
    (written : Written s.ring.blks blks (c.blkNr * 64) (s.ring.putIdx * 64 + off) bytes)
    (fits : bnrs pkgs * 64 + off + bytes.length ≤ c.blkNr * 64)
    (writes : Writes c { s.ring with blks } pkgs pkg stage') :
    Carries c ({ s with ring := { s.ring with blks } }.jump pkg stage') pkgs where
  laid := carries.laid.kept written fits
  reads := carries.reads
  writes _ _ isNew := by
    cases isNew
    exact writes
  connected := carries.connected
  joins _ _ isNew := by
    cases isNew
    exact carries.joins _ _ isJob
  order := by
    have order := carries.order
    rw [isJob] at order
    exact order.trans (congrArg _ same.symm)

theorem Carries.busOut {stage : OutStage} (carries : Carries c s pkgs) (isJob : s.out = some ⟨pkg, stage⟩)
    (step : s.busOut c pkg stage = some s') : (∃ pkgs, Carries c s' pkgs) ∧ s'.wild = s.wild := by
  have putIn := carries.laid.putIn
  have blocks := len_le_blocks pkg.data.length
  have bnr : pkg.bnr = len2bnr pkg.data.length := rfl
  have tail := tailSz_spec putIn pkg.data.length
  have writes := carries.writes pkg stage isJob
  cases stage <;> cases step
  case space =>
    refine ⟨⟨pkgs, carries.stage isJob ?_ ?_⟩, rfl⟩
    · split <;> rfl
    · have space := carries.laid.space
      split
      · trivial
      · change bnrs pkgs + pkg.bnr < c.blkNr
        omega
  case block => exact ⟨⟨pkgs, (carries.blocked true).stage isJob rfl trivial⟩, rfl⟩
  case tick =>
    have still : Carries c { s with inIrq := true } pkgs :=
      ⟨carries.laid, carries.reads, carries.writes, carries.connected, carries.joins, carries.order⟩
    exact ⟨⟨pkgs, still.stage isJob rfl trivial⟩, rfl⟩
  case suspend => exact ⟨⟨pkgs, carries.stage isJob rfl trivial⟩, rfl⟩
  case woken => exact ⟨⟨pkgs, (carries.blocked false).stage isJob rfl trivial⟩, rfl⟩
  case head =>
    have fits : bnrs pkgs + pkg.bnr < c.blkNr := writes
    have length : pkg.headBytes.length = 3 := rfl
    obtain ⟨same, written⟩ := write_tail 0 pkg.headBytes carries.laid fits (by omega) (by omega)
    have head : blkBytes c (setCells s.ring.blks (s.ring.putIdx * 64 + 0) pkg.headBytes) s.ring.putIdx 0 3 =
        pkg.headBytes := written.window
    change (∃ pkgs, Carries c ((s.write c (s.ring.putIdx * 64 + 0) pkg.headBytes).jump pkg .copyTail) pkgs) ∧
      (s.write c (s.ring.putIdx * 64 + 0) pkg.headBytes).wild = s.wild
    rw [same]
    exact ⟨⟨pkgs, carries.written isJob rfl written (by omega) ⟨fits, head⟩⟩, rfl⟩
  case copyTail =>
    obtain ⟨fits, head⟩ := writes
    obtain ⟨bytes, isBytes⟩ : ∃ bytes, bytes = pkg.data.take (tailSz c s.ring.putIdx pkg.data.length) := ⟨_, rfl⟩
    have length : bytes.length = tailSz c s.ring.putIdx pkg.data.length := by
      rw [isBytes, List.length_take]
      omega
    obtain ⟨same, written⟩ := write_tail 4 bytes carries.laid fits (by omega) (by omega)
    have kept := carries.laid.next_kept written (by omega) (by omega : 0 + 3 ≤ 4)
    have data := written.window
    rw [length] at data
    change (∃ pkgs, Carries c ((s.write c (s.ring.putIdx * 64 + 4) (pkg.data.take _)).jump pkg .copyRest) pkgs) ∧
      (s.write c (s.ring.putIdx * 64 + 4) (pkg.data.take _)).wild = s.wild
    rw [← isBytes, same]
    exact ⟨⟨pkgs, carries.written isJob rfl written (by omega) ⟨fits, kept.trans head, data.trans isBytes⟩⟩, rfl⟩
  case copyRest =>
    obtain ⟨fits, head, data⟩ := writes
    obtain ⟨same, written⟩ := write_rest carries.laid fits
    have length : (pkg.data.drop (tailSz c s.ring.putIdx pkg.data.length)).length =
        pkg.data.length - tailSz c s.ring.putIdx pkg.data.length := List.length_drop
    have kept := fun n m => carries.laid.next_kept (n := n) (m := m) written (by omega)
    have whole : PacketAt c (setCells s.ring.blks 0 (pkg.data.drop (tailSz c s.ring.putIdx pkg.data.length)))
        s.ring.putIdx pkg := by
      refine ⟨(kept 0 3 (by omega)).trans head, ?_⟩
      have rest := written.window
      have front := (kept 4 _ (Nat.le_refl _)).trans data
      rw [length] at rest
      rw [blkBytes] at front
      have joined : blkBytes c (setCells s.ring.blks 0 (pkg.data.drop (tailSz c s.ring.putIdx pkg.data.length)))
          s.ring.putIdx 4 (tailSz c s.ring.putIdx pkg.data.length +
            (pkg.data.length - tailSz c s.ring.putIdx pkg.data.length)) = pkg.data := by
        rw [blkBytes, window_add, Nat.add_assoc, rest, front, List.take_append_drop]
      rwa [Nat.add_sub_cancel' tail.1] at joined
    change (∃ pkgs, Carries c ((s.write c 0 (pkg.data.drop _)).jump pkg .publish) pkgs) ∧
      (s.write c 0 (pkg.data.drop _)).wild = s.wild
    rw [same]
    exact ⟨⟨pkgs, carries.written isJob rfl written (by omega) ⟨fits, whole⟩⟩, rfl⟩
  case publish =>
    obtain ⟨fits, packet⟩ := writes
    refine ⟨⟨pkgs ++ [pkg], carries.laid.publish fits packet, ?_, ?_, ?_, ?_, ?_⟩, rfl⟩
    · exact carries.reads.append
    · rintro _ _ ⟨⟩
      trivial
    · intro p inside
      rcases List.mem_append.mp inside with earlier | own
      · exact carries.connected p earlier
      · exact List.mem_singleton.mp own ▸ carries.joins _ _ isJob
    · rintro _ _ ⟨⟩
      exact carries.joins _ _ isJob
    · have order := carries.order
      rw [isJob] at order
      exact order.trans (by simp [jump, pending, carries.reads.coming_append])
  case notify =>
    refine ⟨⟨pkgs, carries.laid, carries.reads, nofun, carries.connected, nofun, ?_⟩, rfl⟩
    have order := carries.order
    rw [isJob] at order
    exact order

/-! ## The steps of the in thread -/

theorem Carries.turn (carries : Carries c s pkgs) (ring : s'.ring = s.ring) (out : s'.out = s.out) (sent : s'.sent = s.sent)
    (reads : Reads c s.ring.getIdx pkgs s'.inn)
    (same : s'.taken ++ coming s'.inn pkgs = s.taken ++ coming s.inn pkgs) : Carries c s' pkgs where
  laid := ring ▸ carries.laid
  reads := ring ▸ reads
  writes pkg stage isJob := by
    rw [ring]
    exact carries.writes pkg stage (out ▸ isJob)
  connected := carries.connected
  joins pkg stage isJob := carries.joins pkg stage (out ▸ isJob)
  order := by rw [sent, out, same, carries.order]

theorem Writes.fewer {rest : List VbusPkg} {stage : OutStage} (writes : Writes c ring pkgs pkg stage)
    (fewer : bnrs rest ≤ bnrs pkgs) (getIdx : Nat) : Writes c { ring with getIdx } rest pkg stage := by
  cases stage with
  | head => exact Nat.lt_of_le_of_lt (Nat.add_le_add_right fewer _) writes
  | copyTail | copyRest | publish => exact ⟨Nat.lt_of_le_of_lt (Nat.add_le_add_right fewer _) writes.1, writes.2⟩
  | _ => trivial

theorem Carries.consume {rest : List VbusPkg} {size : Nat} {pc : InPc} (carries : Carries c s (pkg :: rest))
    (isSize : size = pkg.data.length) (reads : ∀ getIdx, Reads c getIdx rest pc)
    (same : coming pc rest = coming s.inn (pkg :: rest)) : Carries c { s with ring := s.consume c size, inn := pc } rest where
  laid := by
    rw [VbusLink.consume, isSize]
    exact carries.laid.consume
  reads := reads _
  writes p stage isJob := (carries.writes p stage isJob).fewer (by rw [bnrs]; omega) _
  connected p inside := carries.connected p (List.mem_cons_of_mem _ inside)
  joins := carries.joins
  order := by rw [same]; exact carries.order

theorem first_head {rest : List VbusPkg} (laid : Laid c s.ring (pkg :: rest)) :
    s.inId = pkg.id ∧ s.inSize = pkg.data.length := by
  have head := laid.held.1.head
  have getIn := laid.getIn
  have fits := pkg.fits
  have small : maxPktSz = 252 := rfl
  have place : ∀ i < 3, (s.ring.getIdx * 64 + 0 + i) % (c.blkNr * 64) = s.ring.getIdx * 64 + i :=
    fun i less => Nat.mod_eq_of_lt (by omega)
  have cell : ∀ i, i < 3 → (blkBytes c s.ring.blks s.ring.getIdx 0 3)[i]? = some (s.ring.blks (s.ring.getIdx * 64 + i)) :=
    fun i less => by
      rw [blkBytes, window, List.getElem?_map, List.getElem?_range less]
      exact congrArg (fun a => some (s.ring.blks a)) (place i less)
  rw [head] at cell
  have id := Option.some.inj (cell 0 (by omega))
  have len := Option.some.inj (cell 2 (by omega))
  refine ⟨id.symm, ?_⟩
  rw [inSize, blkSz, ← len, UInt8.toNat_ofNat_of_lt' (by show _ < 256; omega)]

theorem Carries.busIn {mallocFails : Bool} (carries : Carries c s pkgs) (allowed : s.Allowed c (.goIn mallocFails))
    (step : s.busIn c mallocFails = some s') : (∃ pkgs, Carries c s' pkgs) ∧ s'.wild = s.wild := by
  have reads := carries.reads
  unfold VbusLink.busIn at step
  unfold Allowed at allowed
  split at step <;> rename_i isHere <;> simp only [isHere] at allowed reads
  case h_1 =>
    split at step <;> cases step
    exact ⟨⟨pkgs, carries.turn rfl rfl rfl trivial (by rw [isHere]; rfl)⟩, rfl⟩
  case h_2 =>
    cases step
    refine ⟨⟨pkgs, carries.turn rfl rfl rfl ?_ ?_⟩, rfl⟩
    · dsimp only
      split
      case isTrue some_ => exact fun empty => some_ (carries.laid.empty_iff.mpr empty)
      case isFalse => trivial
    · dsimp only
      rw [isHere]
      split <;> rfl
  case h_3 =>
    obtain ⟨pkg, rest, rfl⟩ := List.exists_cons_of_ne_nil reads
    obtain ⟨isId, isSize⟩ := first_head carries.laid
    have connected := carries.connected pkg List.mem_cons_self
    have chnr := pkg.chnr
    have goes : ¬(s.inId.toNat > channelNr ∨ ¬c.chnConnected s.inId) := by
      rw [isId]
      simp only [connected, not_true_eq_false, or_false]
      omega
    rw [if_neg goes] at step
    split at step
    case isTrue zero =>
      rw [if_pos zero] at allowed
      rw [if_neg (by omega)] at step
      cases step
      refine ⟨⟨pkg :: rest, carries.turn rfl rfl rfl ⟨pkg, rest, rfl, isSize⟩ ?_⟩, rfl⟩
      have getIn := carries.laid.getIn
      have data : cells s.ring.blks (s.ring.getIdx * 64 + 4) s.inSize = pkg.data := by
        rw [cells_eq_window (by omega : _ ≤ c.blkNr * 64), isSize]
        exact carries.laid.held.1.data
      have content : pkg.content = (0, cells s.ring.blks (s.ring.getIdx * blkSz + blkHeadSz) s.inSize) :=
        Prod.ext (isId.symm.trans zero) data.symm
      simp [isHere, coming, content]
    case isFalse other =>
      rw [if_neg other] at allowed
      rw [allowed, if_neg (by decide)] at step
      cases step
      exact ⟨⟨pkg :: rest, carries.turn rfl rfl rfl ⟨pkg, rest, rfl, isId, isSize⟩ (by rw [isHere]; rfl)⟩, rfl⟩
  case h_4 size =>
    cases step
    obtain ⟨pkg, rest, rfl, isSize⟩ := reads
    exact ⟨⟨rest, carries.consume isSize (fun _ => trivial) (by rw [isHere]; rfl)⟩, rfl⟩
  case h_5 id size =>
    cases step
    obtain ⟨pkg, rest, rfl, isId, isSize⟩ := reads
    have tail := tailSz_spec carries.laid.getIn size
    refine ⟨⟨pkg :: rest, carries.turn rfl rfl rfl ⟨pkg, rest, rfl, isId, isSize, ?_⟩ (by rw [isHere]; rfl)⟩, rfl⟩
    change cells s.ring.blks (s.ring.getIdx * 64 + 4) _ = _
    rw [cells_eq_window (by omega : _ ≤ c.blkNr * 64), ← carries.laid.held.1.data, blkBytes,
      window_take (by rw [← isSize]; exact tail.1)]
  case h_6 id size data =>
    cases step
    obtain ⟨pkg, rest, rfl, isId, isSize, isData⟩ := reads
    have tail := tailSz_spec carries.laid.getIn size
    refine ⟨⟨pkg :: rest, carries.turn rfl rfl rfl ⟨pkg, rest, rfl, isId, isSize, ?_⟩ (by rw [isHere]; rfl)⟩, rfl⟩
    have rest' : cells s.ring.blks 0 (size - tailSz c s.ring.getIdx size) = pkg.data.drop (tailSz c s.ring.getIdx size) := by
      rcases tail.2.2 with whole | full
      · rw [whole, Nat.sub_self, isSize, List.drop_length]
        rfl
      · have blocks := len_le_blocks pkg.data.length
        have room : pkg.bnr + bnrs rest < c.blkNr := carries.laid.room
        have bnr : pkg.bnr = len2bnr pkg.data.length := rfl
        have front : 0 % (c.blkNr * 64) = (s.ring.getIdx * 64 + 4 + tailSz c s.ring.getIdx size) % (c.blkNr * 64) := by
          rw [full, Nat.mod_self, Nat.zero_mod]
        rw [cells_eq_window (by omega : _ ≤ c.blkNr * 64), window_congr front]
        have dropped := congrArg (List.drop (tailSz c s.ring.getIdx size)) carries.laid.held.1.data
        rw [blkBytes, window_drop (by omega), ← isSize] at dropped
        exact dropped
    rw [rest', isData, List.take_append_drop]
  case h_7 id size data =>
    cases step
    obtain ⟨pkg, rest, rfl, isId, isSize, isData⟩ := reads
    refine ⟨⟨rest, carries.consume isSize (fun _ => trivial) ?_⟩, rfl⟩
    rw [isHere, isId, isData]
    rfl
  case h_8 id data =>
    cases step
    refine ⟨⟨pkgs, carries.turn rfl rfl rfl trivial ?_⟩, rfl⟩
    simp [isHere, coming]
  case h_9 =>
    cases step
    exact ⟨⟨pkgs, carries.turn rfl rfl rfl trivial (by rw [isHere]; rfl)⟩, rfl⟩

/-! ## Runs -/

structure Awake (s : VbusLink) : Prop where
  blocked : s.waits = true → s.ring.blocked = true
  hope : s.waits = true → s.outIrq = true ∨ s.ring.getIdx ≠ s.ring.putIdx ∨ InPc.looks s.inn = true
  called : s.inn = .wait → s.ring.getIdx ≠ s.ring.putIdx →
    s.inSem ≠ 0 ∨ s.inIrq = true ∨ ∃ pkg, s.out = some ⟨pkg, .notify⟩

structure Inv (c : VbusConfig) (s : VbusLink) : Prop where
  carries : ∃ pkgs, Carries c s pkgs
  tame : s.wild = false
  awake : s.Awake

theorem Inv.sound (inv : s.Inv c) : s.Sound c := by
  obtain ⟨⟨pkgs, carries⟩, tame, -, hope, called⟩ := inv
  refine ⟨?_, ?_, tame, ?_⟩
  · rw [carries.order, List.append_assoc]
    exact List.prefix_append _ _
  · rintro ⟨noOut, waits, noSem, noIrq⟩
    have noOut : s.out = none := Option.isNone_iff_eq_none.mp noOut
    have empty : s.ring.getIdx = s.ring.putIdx := by
      by_contra some_
      rcases called waits some_ with sem | irq | ⟨pkg, isOut⟩
      · exact sem noSem
      · exact absurd irq (by rw [noIrq]; decide)
      · rw [noOut] at isOut
        cases isOut
    have order := carries.order
    rw [carries.laid.empty_iff.mp empty, waits, noOut] at order
    simpa [coming, pending] using order.symm
  · rintro ⟨pkg, isOut, -, waits, -, empty, noIrq, -⟩
    rcases hope (by rw [VbusLink.waits, isOut]; rfl) with irq | some_ | looks
    · exact absurd irq (by rw [noIrq]; decide)
    · exact some_ empty
    · rw [waits] at looks
      cases looks

theorem Awake.called_of {stage : OutStage} (awake : s.Awake) (isJob : s.out = some ⟨pkg, stage⟩) (other : stage ≠ .notify)
    (waits : s.inn = .wait) (some_ : s.ring.getIdx ≠ s.ring.putIdx) : s.inSem ≠ 0 ∨ s.inIrq = true := by
  rcases awake.called waits some_ with sem | irq | ⟨p, isOut⟩
  · exact .inl sem
  · exact .inr irq
  · rw [isJob] at isOut
    cases isOut
    exact absurd rfl other

theorem Awake.busOut {stage : OutStage} (awake : s.Awake) (isJob : s.out = some ⟨pkg, stage⟩)
    (allowed : s.Allowed c .goOut) (step : s.busOut c pkg stage = some s') : s'.Awake := by
  have called := awake.called_of isJob
  have old : s.waits = OutStage.waits stage := by rw [VbusLink.waits, isJob]
  have hope := awake.hope
  rw [old] at hope
  cases stage <;> cases step
  case space =>
    have quiet : (s.jump pkg (if busRingSpaceNr c s.ring < pkg.bnr then .block else .head)).waits = false := by
      change OutStage.waits _ = false
      split <;> rfl
    refine ⟨fun waits => ?_, fun waits => ?_, fun waits some_ => ?_⟩
    · rw [quiet] at waits; cases waits
    · rw [quiet] at waits; cases waits
    · exact (called nofun waits some_).imp_right .inl
  case block =>
    refine ⟨fun _ => rfl, fun _ => ?_, fun waits some_ => (called nofun waits some_).imp_right .inl⟩
    rcases allowed (by rw [isJob]; rfl) with some_ | looks | irq
    · exact .inr (.inl some_)
    · exact .inr (.inr looks)
    · exact .inl irq
  case tick =>
    refine ⟨fun _ => awake.blocked old, fun _ => hope rfl, fun _ _ => .inr (.inl rfl)⟩
  case suspend =>
    exact ⟨fun _ => awake.blocked old, fun _ => hope rfl, fun waits some_ => (called nofun waits some_).imp_right .inl⟩
  case publish => exact ⟨nofun, nofun, fun _ _ => .inr (.inr ⟨pkg, rfl⟩)⟩
  case notify => exact ⟨nofun, nofun, fun _ _ => .inr (.inl rfl)⟩
  all_goals exact ⟨nofun, nofun, fun waits some_ => (called nofun waits some_).imp_right .inl⟩

theorem Awake.busIn {mallocFails : Bool} (awake : s.Awake) (allowed : s.Allowed c (.goIn mallocFails))
    (step : s.busIn c mallocFails = some s') : s'.Awake := by
  obtain ⟨blocked, hope, called⟩ := awake
  -- The in thread is somewhere else, and nothing that the out thread waits for has changed.
  have moves : ∀ (pc : InPc) (sem : Nat) (taken : List (UInt8 × List UInt8)), InPc.looks s.inn = false → pc ≠ .wait →
      Awake { s with inn := pc, inSem := sem, taken } := fun pc sem taken noLook noWait => by
    refine ⟨blocked, fun waits => ?_, fun waits => absurd waits noWait⟩
    rcases hope waits with irq | some_ | looks
    · exact .inl irq
    · exact .inr (.inl some_)
    · rw [noLook] at looks
      cases looks
  unfold VbusLink.busIn at step
  unfold Allowed at allowed
  split at step <;> rename_i isHere <;> simp only [isHere] at allowed moves
  case h_1 =>
    split at step <;> cases step
    exact moves .test _ _ rfl nofun
  case h_2 =>
    cases step
    by_cases empty : s.ring.getIdx = s.ring.putIdx
    · refine ⟨blocked, fun waits => ?_, fun _ some_ => absurd empty some_⟩
      rcases hope waits with irq | some_ | looks
      · exact .inl irq
      · exact .inr (.inl some_)
      · rw [isHere] at looks
        cases looks
    · rw [if_pos empty]
      exact moves .read _ _ rfl nofun
  case h_3 =>
    repeat' split at step
    all_goals
      cases step
      exact moves _ _ _ rfl nofun
  case h_4 size =>
    cases step
    exact ⟨blocked, fun waits => (allowed waits).elim (fun some_ => .inr (.inl some_)) .inl, nofun⟩
  case h_5 | h_6 =>
    cases step
    exact moves _ _ _ rfl nofun
  case h_7 | h_8 =>
    cases step
    exact ⟨blocked, fun _ => .inr (.inr rfl), nofun⟩
  case h_9 =>
    cases step
    refine ⟨blocked, fun waits => .inl ?_, nofun⟩
    dsimp only
    rw [blocked waits, Bool.or_true]

theorem Inv.act {a : VbusAction} (inv : s.Inv c) (allowed : s.Allowed c a) (step : s.act c a = some s') : s'.Inv c := by
  obtain ⟨⟨pkgs, carries⟩, tame, awake⟩ := inv
  cases a <;> unfold VbusLink.act at step <;> dsimp only at step
  case pop pkg =>
    split at step
    case h_1 => cases step
    case h_2 noOut =>
      split at step <;> cases step
      case isTrue connected =>
        refine ⟨⟨pkgs, carries.laid, carries.reads, ?_, carries.connected, ?_, ?_⟩, tame, nofun, nofun, fun waits some_ => ?_⟩
        · rintro _ _ ⟨⟩
          trivial
        · rintro _ _ ⟨⟩
          exact connected
        · have order := carries.order
          rw [noOut] at order
          simp [order, pending]
        · rcases awake.called waits some_ with sem | irq | ⟨p, isOut⟩
          · exact .inl sem
          · exact .inr (.inl irq)
          · rw [noOut] at isOut
            cases isOut
      case isFalse => exact ⟨⟨pkgs, carries⟩, tame, awake⟩
  case goOut =>
    split at step
    case h_2 => cases step
    case h_1 job isJob =>
      obtain ⟨carried, same⟩ := carries.busOut isJob step
      exact ⟨carried, same.trans tame, awake.busOut isJob allowed step⟩
  case goIn mallocFails =>
    obtain ⟨carried, same⟩ := carries.busIn allowed step
    exact ⟨carried, same.trans tame, awake.busIn allowed step⟩
  case otherOut =>
    cases step
    exact ⟨⟨pkgs, carries.turn rfl rfl rfl carries.reads rfl⟩, tame, awake.blocked, fun _ => .inl rfl, awake.called⟩
  case otherIn =>
    cases step
    exact ⟨⟨pkgs, carries.turn rfl rfl rfl carries.reads rfl⟩, tame, awake.blocked, awake.hope, fun _ _ => .inr (.inl rfl)⟩
  case isrOut =>
    have still : Carries c { s with outIrq := false } pkgs := carries.turn rfl rfl rfl carries.reads rfl
    split at step
    case isFalse => cases step
    case isTrue =>
      unfold VbusLink.isrOut at step
      split at step
      case h_2 noOut =>
        cases step
        refine ⟨⟨pkgs, still⟩, tame, awake.blocked, fun waits => ?_, awake.called⟩
        have never : ({ s with outIrq := false } : VbusLink).waits = false := by rw [VbusLink.waits, noOut]
        rw [never] at waits
        cases waits
      case h_1 pkg stage isJob =>
        split at step <;> cases step
        case isFalse open_ =>
          have old : s.waits = OutStage.waits stage := by rw [VbusLink.waits, isJob]
          by_cases sleeps : stage = .suspended
          · subst sleeps
            rw [if_pos ⟨awake.blocked old, rfl⟩]
            refine ⟨⟨pkgs, still.stage isJob rfl trivial⟩, tame, nofun, nofun, fun waits some_ => ?_⟩
            exact (awake.called_of isJob nofun waits some_).imp_right .inl
          · rw [if_neg fun both => sleeps both.2]
            have quiet : OutStage.waits stage = false := by
              cases stage <;> first | rfl | exact absurd rfl open_ | exact absurd rfl sleeps
            refine ⟨⟨pkgs, still.stage isJob rfl (still.writes _ _ isJob)⟩, tame, fun waits => ?_, fun waits => ?_, ?_⟩
            · exact absurd (quiet.symm.trans waits) Bool.false_ne_true
            · exact absurd (quiet.symm.trans waits) Bool.false_ne_true
            · intro waits some_
              rcases awake.called waits some_ with sem | irq | ⟨p, isOut⟩
              · exact .inl sem
              · exact .inr (.inl irq)
              · rw [isJob] at isOut
                exact .inr (.inr ⟨p, isOut⟩)
  case isrIn =>
    split at step <;> cases step
    case isTrue =>
      exact ⟨⟨pkgs, carries.turn rfl rfl rfl carries.reads rfl⟩, tame, awake.blocked, awake.hope,
        fun _ _ => .inl (Nat.succ_ne_zero _)⟩

theorem inv_init (c : VbusConfig) : init.Inv c where
  carries := by
    refine ⟨[], ⟨c.blocks, ?_, c.blocks, trivial⟩, trivial, nofun, nofun, nofun, rfl⟩
    have blocks := c.blocks
    change 0 = if 0 + 0 ≥ c.blkNr then _ else _
    rw [if_neg (by omega)]
    rfl
  tame := rfl
  awake := ⟨nofun, nofun, fun _ some_ => absurd rfl some_⟩

section runs
variable (c)

def Step (s : VbusLink) (a : VbusAction) (s' : VbusLink) : Prop := s.act c a = some s'

/-- Whatever the packets, the interleaving and the interrupts, the ring is sound in a run whose steps are allowed. -/
theorem vbus_ring_sound (actions : List VbusAction) (each : EachStep (Step c) init actions fun s a => s.Allowed c a) :
    Throughout (Step c) init actions fun s => s.Sound c := by
  intro before mid inside run
  have inv : mid.Inv c := by
    refine each.throughout (fun s a s' inv allowed step => ?_) (inv_init c) before mid inside run
    exact inv.act allowed step
  exact inv.sound

end runs

def small : VbusConfig := ⟨5, by decide, fun _ => true⟩

def fullPkg : VbusPkg where
  id := 1
  prio := 0
  data := List.replicate maxPktSz 0x41
  chnr := by decide
  nonempty := Nat.lt_of_lt_of_eq (by decide) List.length_replicate.symm
  fits := Nat.le_of_eq List.length_replicate

def shortPkg : VbusPkg := ⟨1, 0, [0x42], by decide, by decide, by decide⟩

/-- The first packet fills the ring, and the out thread sees that there is no room for the second one. -/
def filled : List VbusAction := .pop fullPkg :: List.replicate 6 .goOut ++ [.pop shortPkg, .goOut]

def emptied : List VbusAction := .isrIn :: List.replicate 9 (.goIn false)

def inTime : List VbusAction :=
  filled ++ [.goOut, .goOut, .goOut] ++ emptied ++ .isrOut :: List.replicate 7 .goOut ++ emptied

/-- The ring is emptied before the out thread sets `blocked`. -/
def tooLate : List VbusAction := filled ++ emptied ++ [.goOut, .goOut, .goOut, .isrIn, .goIn false, .goIn false]

theorem vbus_ring_woken : Throughout (Step small) init inTime (fun s => s.Sound small) ∧
    (inTime.foldlM (act small) init).any (fun s => s.taken == [fullPkg.content, shortPkg.content]) = true := by
  refine ⟨vbus_ring_sound small inTime ?_, by decide +kernel⟩
  have all : eachAllowed (act small) (fun s a => decide (s.Allowed small a)) init inTime = true := by decide +kernel
  have each := eachStep_of_eachAllowed all
  intro before a mid next inside run taken
  exact of_decide_eq_true (each before a mid next inside run taken)

def stuck (s : VbusLink) : Bool :=
  s.out.any (fun job => job.stage = .suspended && (job.pkg.bnr : Int) ≤ busRingSpaceNr small s.ring) &&
    (s.inn = .wait && s.inSem = 0 && s.ring.getIdx = s.ring.putIdx && s.outIrq = false && s.inIrq = false)

theorem vbus_ring_stuck : ¬Throughout (Step small) init tooLate fun s => s.Sound small := by
  intro all
  have reached : (tooLate.foldlM (act small) init).any stuck = true := by decide +kernel
  obtain ⟨s, run, last⟩ := (Option.any_eq_true _ _).mp reached
  have sound : s.Sound small := all _ s (List.prefix_refl _) (run_of_foldlM run)
  simp only [stuck, Bool.and_eq_true, decide_eq_true_eq, Option.any_eq_true] at last
  obtain ⟨⟨⟨pkg, stage⟩, isOut, sleeps, room⟩, ⟨⟨⟨waits, sem⟩, empty⟩, outIrq⟩, inIrq⟩ := last
  exact sound.awake ⟨pkg, by rw [isOut, ← sleeps], room, waits, sem, empty, outIrq, inIrq⟩

end VbusLink

end RtThread.Vbus
