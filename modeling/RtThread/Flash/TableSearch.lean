import RtThread.Lib.Word
import Mathlib.Data.List.Range

/-! The partition table that `fal_partition_init` finds in the flash itself, without FAL_PART_HAS_TABLE_CFG: the
search backwards for its magic word, and the records that it loads from there down. -/

set_option autoImplicit false
namespace RtThread.Flash
open Lib

structure TableDev where
  len : UInt32
  content : Nat → UInt8
  /-- what a read answers that does not lie inside the device: a code, and the buffer behind it -/
  stray : Int → Int × (Nat → UInt8)

/-- `flash_dev->ops.read` -/
def TableDev.read (dev : TableDev) (offset : Int) (size : Nat) : Int × (Nat → UInt8) :=
  if 0 ≤ offset ∧ offset + size ≤ dev.len.toNat then (size, fun i => dev.content (offset.toNat + i))
  else dev.stray offset

def falPartMagicWord : UInt32 := 0x45503130

/-- `sizeof(struct fal_partition)`, and that of `read_buf` -/
def tableItemSize : Nat := 64

def toLong (value : Int) : Int := value.bmod (2 ^ 32)

/-- The loop that looks for the magic word in `read_buf`, from place `i` on. -/
def findMagic (readBuf : Nat → UInt8) : Nat → Nat → Option Nat
  | 0, _ => none
  | count + 1, i => if load32 readBuf i = falPartMagicWord then some i else findMagic readBuf count (i + 1)

structure TableSearch where
  located : Option Int
  reads : List Int

def searchLoop (dev : TableDev) : Nat → Int → Option TableSearch
  | 0, _ => none
  | fuel + 1, offset =>
    if offset ≥ 0 then
      let (code, readBuf) := dev.read offset 64
      if code > 0 then
        match findMagic readBuf (64 - 4 + 1) 0 with
        | some i => some ⟨some (offset + i), [offset]⟩
        | none =>
          if offset ≥ 64 then
            (searchLoop dev fuel (offset - 64 + (4 - 1))).map fun search =>
              { search with reads := offset :: search.reads }
          else if offset ≠ 0 then
            (searchLoop dev fuel 0).map fun search => { search with reads := offset :: search.reads }
          else some ⟨none, [offset]⟩
      else some ⟨none, [offset]⟩
    else some ⟨none, []⟩

/-- What `fal_partition_init` has done: its reads, the bytes that each `memset` of the record buffer clears, the table
with its records, and whether it ran out of memory. -/
structure TableLoad where
  located : Option Int
  reads : List Int
  clears : List Nat
  table : List (List UInt8)
  failed : Bool

/-- The loop that loads the table. `realloc` tells whether there is memory for so many records. -/
def loadLoop (dev : TableDev) (realloc : Nat → Bool) (offset : Int) : Nat → Nat → Option TableLoad
  | 0, _ => none
  | fuel + 1, tableNum =>
    let place := toLong (offset - tableItemSize * tableNum)
    let (code, newPart) := dev.read place tableItemSize
    if code < 0 then some ⟨some offset, [place], [tableNum], [], true⟩
    else if load32 newPart 0 ≠ falPartMagicWord then some ⟨some offset, [place], [tableNum], [], false⟩
    else if realloc (tableNum + 1) = false then some ⟨some offset, [place], [tableNum], [], true⟩
    else
      (loadLoop dev realloc offset fuel (tableNum + 1)).map fun load =>
        { load with
          reads := place :: load.reads
          clears := tableNum :: load.clears
          table := (List.range tableItemSize).map newPart :: load.table }

/-- `fal_partition_init` up to the loaded table; a table that could not be loaded to its end is dropped. -/
def falPartitionLoad (dev : TableDev) (endOffset : Int) (malloc : Bool) (realloc : Nat → Bool) (fuel : Nat) :
    Option TableLoad :=
  if endOffset < 0 ∨ endOffset ≥ dev.len.toInt32.toInt then some ⟨none, [], [], [], true⟩
  else if malloc = false then some ⟨none, [], [], [], true⟩
  else
    match searchLoop dev fuel (endOffset - 64) with
    | none => none
    | some search =>
      match search.located with
      | none => some ⟨none, search.reads, [], [], false⟩
      | some offset =>
        (loadLoop dev realloc offset fuel 0).map fun load =>
          { load with
            reads := search.reads ++ load.reads
            table := if load.failed then [] else load.table }

section
variable (dev : TableDev)

def MagicAt (q : Nat) : Prop := load32 dev.content q = falPartMagicWord

instance (q : Nat) : Decidable (MagicAt dev q) := inferInstanceAs (Decidable (_ = _))

def recordAt (q : Nat) : List UInt8 := (List.range tableItemSize).map fun i => dev.content (q + i)

def StepsDown (p : Nat) (records : List (List UInt8)) : Prop :=
  ∃ n, records = (List.range n).map (fun j => recordAt dev (p - tableItemSize * j)) ∧
    (∀ j < n, tableItemSize * j ≤ p ∧ MagicAt dev (p - tableItemSize * j)) ∧
    ¬(tableItemSize * n ≤ p ∧ MagicAt dev (p - tableItemSize * n))

/-- What is asked of a load: it reads inside the device, clears no more than the record buffer, finds the table if
there is a magic word below the end offset, and loads its records. -/
structure TableLoad.Sound (endOffset : Nat) (malloc : Bool) (realloc : Nat → Bool) (load : TableLoad) : Prop where
  reads : ∀ offset ∈ load.reads, 0 ≤ offset ∧ offset + tableItemSize ≤ dev.len.toNat
  clears : ∀ n ∈ load.clears, n ≤ tableItemSize
  found : malloc = true → (∃ q, q + 4 ≤ endOffset ∧ MagicAt dev q) → load.located ≠ none
  table : malloc = true → (∀ n, realloc n = true) → ∀ offset, load.located = some offset →
    ∃ p : Nat, offset = p ∧ MagicAt dev p ∧ StepsDown dev p load.table

def windowsFrom (offset : Nat) : List Nat :=
  offset :: if 64 ≤ offset then windowsFrom (offset - 61) else if offset = 0 then [] else [0]

def Hits (w q : Nat) : Prop := w ≤ q ∧ q + 4 ≤ w + 64 ∧ MagicAt dev q

def LocatedIn : List Nat → Nat → Prop
  | [], _ => False
  | w :: rest, p =>
    (Hits dev w p ∧ ∀ q < p, ¬Hits dev w q) ∨ (∀ q, ¬Hits dev w q) ∧ LocatedIn rest p

def windows (endOffset : Nat) : List Nat := if 64 ≤ endOffset then windowsFrom (endOffset - 64) else []

/-- There is no magic word to be found. Or one is located, its record and all below it that have one lie in the
flash, and so does the place of one more; and there are no more of them than a record has bytes. -/
def Loadable (endOffset : Nat) : Prop :=
  (∀ q, q + 4 ≤ endOffset → ¬MagicAt dev q) ∨
    dev.len.toNat < 2 ^ 31 ∧ ∃ p n, LocatedIn dev (windows endOffset) p ∧ p + tableItemSize ≤ dev.len.toNat ∧
      n ≤ tableItemSize ∧ tableItemSize * n ≤ p ∧ (∀ j < n, MagicAt dev (p - tableItemSize * j)) ∧
      ¬MagicAt dev (p - tableItemSize * n)

end

end RtThread.Flash
