import RtThread.Flash.TableSearch

/-! When the search and the load of a partition table do what they should: every place that the windows of the search
miss, and every way in which the load runs out of the flash or of its buffer. -/

set_option autoImplicit false
namespace RtThread.Flash
open Lib

section
variable {readBuf : Nat → UInt8} {count start i : Nat}

theorem findMagic_some (found : findMagic readBuf count start = some i) :
    start ≤ i ∧ i < start + count ∧ load32 readBuf i = falPartMagicWord ∧
      ∀ j, start ≤ j → j < i → load32 readBuf j ≠ falPartMagicWord := by
  induction count generalizing start with
  | zero => cases found
  | succ count ih =>
    rw [findMagic] at found
    split at found
    case isTrue here =>
      cases found
      exact ⟨Nat.le_refl _, by omega, here, fun j low high => absurd high (by omega)⟩
    case isFalse other =>
      obtain ⟨low, high, magic, before⟩ := ih found
      refine ⟨by omega, by omega, magic, fun j least less => ?_⟩
      by_cases first : j = start
      · rw [first]
        exact other
      · exact before j (by omega) less

theorem findMagic_none (missing : findMagic readBuf count start = none) :
    ∀ j, start ≤ j → j < start + count → load32 readBuf j ≠ falPartMagicWord := by
  induction count generalizing start with
  | zero => exact fun j low high => absurd high (by omega)
  | succ count ih =>
    rw [findMagic] at missing
    split at missing
    case isTrue => cases missing
    case isFalse other =>
      intro j low high
      by_cases first : j = start
      · rw [first]
        exact other
      · exact ih missing j (by omega) (by omega)

end

section
variable {dev : TableDev} {offset fuel w p p' q : Nat} {search : TableSearch} {rest list : List Nat}

theorem read_inside {size : Nat} (inside : offset + size ≤ dev.len.toNat) :
    dev.read offset size = ((size : Int), fun i => dev.content (offset + i)) := by
  have fits : (0 : Int) ≤ offset ∧ (offset : Int) + size ≤ dev.len.toNat := by omega
  rw [TableDev.read, if_pos fits]
  rfl

theorem load32_window (i : Nat) : load32 (fun k => dev.content (offset + k)) i = load32 dev.content (offset + i) := rfl

theorem LocatedIn.magic (located : LocatedIn dev list p) : MagicAt dev p := by
  induction list with
  | nil => exact located.elim
  | cons w rest ih =>
    rcases located with ⟨hit, -⟩ | ⟨-, later⟩
    · exact hit.2.2
    · exact ih later

theorem LocatedIn.unique (first : LocatedIn dev list p) (second : LocatedIn dev list p') : p = p' := by
  induction list with
  | nil => exact first.elim
  | cons w rest ih =>
    rcases first with ⟨hit, least⟩ | ⟨none, later⟩ <;> rcases second with ⟨hit', least'⟩ | ⟨none', later'⟩
    · have le : ¬p < p' := fun less => least' p less hit
      have ge : ¬p' < p := fun less => least p' less hit'
      omega
    · exact absurd hit (none' p)
    · exact absurd hit' (none p')
    · exact ih later later'

theorem searchLoop_turn (fuel : Nat) (inside : offset + 64 ≤ dev.len.toNat) :
    (∃ p, (Hits dev offset p ∧ ∀ q < p, ¬Hits dev offset q) ∧
      searchLoop dev (fuel + 1) offset = some ⟨some p, [(offset : Int)]⟩) ∨
    (∀ q, ¬Hits dev offset q) ∧ searchLoop dev (fuel + 1) offset =
      if 64 ≤ offset then
        (searchLoop dev fuel (offset - 61 : Nat)).map fun search => { search with reads := offset :: search.reads }
      else if offset = 0 then some ⟨none, [(offset : Int)]⟩
      else (searchLoop dev fuel (0 : Nat)).map fun search => { search with reads := offset :: search.reads } := by
  have positive : (offset : Int) ≥ 0 := Int.natCast_nonneg _
  have sixty : ((64 : Nat) : Int) > 0 := by decide
  rw [searchLoop, if_pos positive, read_inside inside]
  simp only [if_pos sixty]
  cases found : findMagic (fun i => dev.content (offset + i)) (64 - 4 + 1) 0 with
  | some i =>
    obtain ⟨-, high, magic, before⟩ := findMagic_some found
    refine .inl ⟨offset + i, ⟨⟨by omega, by omega, magic⟩, fun q less hit => ?_⟩, rfl⟩
    obtain ⟨low, -, here⟩ := hit
    have place : offset + (q - offset) = q := by omega
    apply before (q - offset) (Nat.zero_le _) (by omega)
    rw [load32_window, place]
    exact here
  | none =>
    have missing := findMagic_none found
    refine .inr ⟨fun q hit => ?_, ?_⟩
    · obtain ⟨low, high, here⟩ := hit
      have place : offset + (q - offset) = q := by omega
      apply missing (q - offset) (Nat.zero_le _) (by omega)
      rw [load32_window, place]
      exact here
    · by_cases more : 64 ≤ offset
      · have onward : (offset : Int) - 64 + (4 - 1) = (offset - 61 : Nat) := by omega
        have far : (offset : Int) ≥ 64 := by omega
        rw [if_pos more]
        simp only [if_pos far, onward]
      · have near : ¬(offset : Int) ≥ 64 := by omega
        rw [if_neg more]
        simp only [if_neg near]
        by_cases first : offset = 0
        · subst first
          rfl
        · have nonzero : (offset : Int) ≠ 0 := by omega
          rw [if_neg first, if_pos nonzero]
          rfl

structure Searched (dev : TableDev) (list : List Nat) (search : TableSearch) : Prop where
  reads : ∀ r ∈ search.reads, 0 ≤ r ∧ r + tableItemSize ≤ dev.len.toNat
  located : (∃ p : Nat, search.located = some (p : Int) ∧ LocatedIn dev list p) ∨
    search.located = none ∧ ∀ v ∈ list, ∀ q, ¬Hits dev v q

theorem Searched.cons (searched : Searched dev rest search) (inside : w + 64 ≤ dev.len.toNat)
    (none : ∀ q, ¬Hits dev w q) :
    Searched dev (w :: rest) { search with reads := w :: search.reads } where
  reads r member := by
    rcases List.mem_cons.mp member with rfl | later
    · simp only [tableItemSize]
      omega
    · exact searched.reads r later
  located := by
    rcases searched.located with ⟨p, found, located⟩ | ⟨missing, empty⟩
    · exact .inl ⟨p, found, .inr ⟨none, located⟩⟩
    · refine .inr ⟨missing, fun v member => ?_⟩
      rcases List.mem_cons.mp member with rfl | later
      · exact none
      · exact empty v later

theorem Searched.last (inside : w + 64 ≤ dev.len.toNat) (none : ∀ q, ¬Hits dev w q) :
    Searched dev [w] ⟨.none, [(w : Int)]⟩ where
  reads r member := by
    rw [List.mem_singleton.mp member]
    simp only [tableItemSize]
    omega
  located := .inr ⟨rfl, fun v member => by rw [List.mem_singleton.mp member]; exact none⟩

theorem Searched.first (inside : w + 64 ≤ dev.len.toNat) (hit : Hits dev w p ∧ ∀ q < p, ¬Hits dev w q) :
    Searched dev (w :: rest) ⟨some (p : Int), [(w : Int)]⟩ where
  reads r member := by
    rw [List.mem_singleton.mp member]
    simp only [tableItemSize]
    omega
  located := .inl ⟨p, rfl, .inl hit⟩

theorem windowsFrom_zero : windowsFrom 0 = [0] := by
  rw [windowsFrom, if_neg (by omega), if_pos rfl]

theorem searchLoop_searched (inside : offset + 64 ≤ dev.len.toNat) (run : searchLoop dev fuel offset = some search) :
    Searched dev (windowsFrom offset) search := by
  induction fuel generalizing offset search with
  | zero => cases run
  | succ fuel ih =>
    rw [windowsFrom]
    rcases searchLoop_turn fuel inside with ⟨p, hit, turn⟩ | ⟨none, turn⟩
    · rw [turn] at run
      cases run
      exact .first inside hit
    · rw [turn] at run
      by_cases far : 64 ≤ offset
      · rw [if_pos far] at run ⊢
        obtain ⟨later, found, same⟩ := Option.map_eq_some_iff.mp run
        cases same
        exact (ih (by omega) found).cons inside none
      · rw [if_neg far] at run ⊢
        by_cases zero : offset = 0
        · rw [if_pos zero] at run ⊢
          cases run
          exact .last inside none
        · rw [if_neg zero] at run
          rw [if_neg zero, ← windowsFrom_zero]
          obtain ⟨later, found, same⟩ := Option.map_eq_some_iff.mp run
          cases same
          exact (ih (by omega) found).cons inside none

theorem searchLoop_returns (inside : offset + 64 ≤ dev.len.toNat) (enough : offset + 1 < fuel) :
    ∃ search, searchLoop dev fuel offset = some search := by
  induction fuel generalizing offset with
  | zero => omega
  | succ fuel ih =>
    rcases searchLoop_turn fuel inside with ⟨p, -, turn⟩ | ⟨-, turn⟩
    · exact ⟨_, turn⟩
    · rw [turn]
      by_cases far : 64 ≤ offset
      · have later : ∃ search, searchLoop dev fuel (offset - 61 : Nat) = some search := ih (by omega) (by omega)
        obtain ⟨search, found⟩ := later
        rw [if_pos far, found]
        exact ⟨_, rfl⟩
      · rw [if_neg far]
        by_cases zero : offset = 0
        · rw [if_pos zero]
          exact ⟨_, rfl⟩
        · have later : ∃ search, searchLoop dev fuel (0 : Nat) = some search := ih (by omega) (by omega)
          obtain ⟨search, found⟩ := later
          rw [if_neg zero, found]
          exact ⟨_, rfl⟩

end

section
variable {dev : TableDev} {realloc : Nat → Bool} {load : TableLoad} {p n k fuel : Nat}

theorem toLong_eq {value : Int} (low : -2 ^ 31 ≤ value) (high : value < 2 ^ 31) : toLong value = value := by
  exact Int.bmod_eq_of_le (by omega) (by omega)

theorem toLong_place (below : tableItemSize * k ≤ p) (short : p < 2 ^ 31) :
    toLong (p - tableItemSize * k) = (p - tableItemSize * k : Nat) := by
  rw [toLong_eq] <;> omega

theorem loadLoop_turn (below : tableItemSize * k ≤ p) (inside : p + tableItemSize ≤ dev.len.toNat)
    (short : p < 2 ^ 31) :
    loadLoop dev realloc p (fuel + 1) k =
      if ¬MagicAt dev (p - tableItemSize * k) then
        some ⟨some (p : Int), [((p - tableItemSize * k : Nat) : Int)], [k], [], false⟩
      else if realloc (k + 1) = false then
        some ⟨some (p : Int), [((p - tableItemSize * k : Nat) : Int)], [k], [], true⟩
      else
        (loadLoop dev realloc p fuel (k + 1)).map fun load =>
          { load with
            reads := (p - tableItemSize * k : Nat) :: load.reads
            clears := k :: load.clears
            table := recordAt dev (p - tableItemSize * k) :: load.table } := by
  have fits : p - tableItemSize * k + tableItemSize ≤ dev.len.toNat := by omega
  have code : ¬((tableItemSize : Nat) : Int) < 0 := by decide
  rw [loadLoop]
  simp only [toLong_place below short, read_inside fits, if_neg code]
  rfl

theorem loadLoop_starts (run : loadLoop dev realloc p fuel k = some load) :
    toLong (p - tableItemSize * k) ∈ load.reads ∧ k ∈ load.clears := by
  cases fuel with
  | zero => cases run
  | succ fuel =>
    rw [loadLoop] at run
    simp only at run
    split at run
    · cases run
      simp
    · split at run
      · cases run
        simp
      · split at run
        · cases run
          simp
        · obtain ⟨later, -, same⟩ := Option.map_eq_some_iff.mp run
          subst same
          exact ⟨List.mem_cons_self, List.mem_cons_self⟩

theorem loadLoop_reaches (run : loadLoop dev (fun _ => true) p fuel k = some load)
    (inside : p + tableItemSize ≤ dev.len.toNat) (short : p < 2 ^ 31) (order : k ≤ n)
    (chain : ∀ j, k ≤ j → j < n → tableItemSize * j ≤ p ∧ MagicAt dev (p - tableItemSize * j)) :
    toLong (p - tableItemSize * n) ∈ load.reads ∧ n ∈ load.clears := by
  have memory : ¬(true : Bool) = false := nofun
  induction fuel generalizing k load with
  | zero => cases run
  | succ fuel ih =>
    by_cases last : k = n
    · subst last
      exact loadLoop_starts run
    · obtain ⟨below, magic⟩ := chain k (Nat.le_refl _) (by omega)
      rw [loadLoop_turn below inside short, if_neg (not_not.mpr magic), if_neg memory] at run
      obtain ⟨later, found, same⟩ := Option.map_eq_some_iff.mp run
      obtain ⟨reads, clears⟩ := ih found (by omega) fun j low high => chain j (by omega) high
      subst same
      exact ⟨List.mem_cons_of_mem _ reads, List.mem_cons_of_mem _ clears⟩

/-- What is left to load, from the record `k` on. -/
structure TableLoaded (dev : TableDev) (realloc : Nat → Bool) (p n k : Nat) (load : TableLoad) : Prop where
  located : load.located = some (p : Int)
  reads : ∀ offset ∈ load.reads, 0 ≤ offset ∧ offset + tableItemSize ≤ dev.len.toNat
  clears : ∀ m ∈ load.clears, m ≤ n
  failed : load.failed = true → ∃ m, realloc m = false
  table : load.failed = false →
    load.table = (List.range' k (n - k)).map fun j => recordAt dev (p - tableItemSize * j)

theorem loadLoop_loaded (realloc : Nat → Bool) (fuel : Nat) (inside : p + tableItemSize ≤ dev.len.toNat) (short : p < 2 ^ 31)
    (bottom : tableItemSize * n ≤ p) (chain : ∀ j < n, MagicAt dev (p - tableItemSize * j))
    (last : ¬MagicAt dev (p - tableItemSize * n)) (order : k ≤ n) (enough : n - k < fuel) :
    ∃ load, loadLoop dev realloc p fuel k = some load ∧ TableLoaded dev realloc p n k load := by
  induction fuel generalizing k with
  | zero => omega
  | succ fuel ih =>
    have below : tableItemSize * k ≤ p := Nat.le_trans (Nat.mul_le_mul_left _ order) bottom
    have here : ∀ offset ∈ [((p - tableItemSize * k : Nat) : Int)],
        0 ≤ offset ∧ offset + tableItemSize ≤ dev.len.toNat := by
      intro offset member
      rw [List.mem_singleton.mp member]
      omega
    have self : ∀ m ∈ [k], m ≤ n := fun m member => by rw [List.mem_singleton.mp member]; exact order
    rw [loadLoop_turn below inside short]
    by_cases ends : k = n
    · subst ends
      rw [if_pos last]
      exact ⟨_, rfl, rfl, here, self, nofun, fun _ => by rw [Nat.sub_self]; rfl⟩
    · have magic := chain k (by omega)
      rw [if_neg (not_not.mpr magic)]
      split
      case isTrue full => exact ⟨_, rfl, rfl, here, self, fun _ => ⟨k + 1, full⟩, nofun⟩
      case isFalse =>
        obtain ⟨load, found, located, reads, clears, failed, table⟩ := ih (k := k + 1) (by omega) (by omega)
        rw [found]
        refine ⟨_, rfl, located, ?_, ?_, failed, fun fine => ?_⟩
        · exact List.forall_mem_cons.mpr ⟨here _ List.mem_cons_self, reads⟩
        · exact List.forall_mem_cons.mpr ⟨order, clears⟩
        · have more : n - k = n - (k + 1) + 1 := by omega
          rw [more, List.range'_succ, List.map_cons]
          exact congrArg _ (table fine)

end

section
variable {dev : TableDev} {malloc : Bool} {realloc : Nat → Bool} {search : TableSearch} {load : TableLoad}
  {endOffset fuel offset w p n q : Nat} {reads : List Int} {list : List Nat} {failed : Bool}

theorem windowsFrom_le (member : w ∈ windowsFrom offset) : w ≤ offset := by
  induction offset using Nat.strong_induction_on with
  | _ offset ih =>
    rw [windowsFrom] at member
    rcases List.mem_cons.mp member with rfl | later
    · exact Nat.le_refl _
    · by_cases far : 64 ≤ offset
      · rw [if_pos far] at later
        have le := ih (offset - 61) (by omega) later
        omega
      · rw [if_neg far] at later
        by_cases zero : offset = 0
        · rw [if_pos zero] at later
          cases later
        · rw [if_neg zero] at later
          rw [List.mem_singleton.mp later]
          exact Nat.zero_le offset

theorem LocatedIn.hits (located : LocatedIn dev list p) : ∃ w ∈ list, Hits dev w p := by
  induction list with
  | nil => exact located.elim
  | cons w rest ih =>
    rcases located with ⟨hit, -⟩ | ⟨-, later⟩
    · exact ⟨w, List.mem_cons_self, hit⟩
    · obtain ⟨v, member, hit⟩ := ih later
      exact ⟨v, List.mem_cons_of_mem _ member, hit⟩

theorem LocatedIn.below (located : LocatedIn dev (windows endOffset) p) : p + 4 ≤ endOffset := by
  obtain ⟨w, member, -, high, -⟩ := located.hits
  rw [windows] at member
  by_cases wide : 64 ≤ endOffset
  · rw [if_pos wide] at member
    have le := windowsFrom_le member
    omega
  · rw [if_neg wide] at member
    cases member

theorem tableSearch_searched (inside : endOffset ≤ dev.len.toNat)
    (run : searchLoop dev fuel ((endOffset : Int) - 64) = some search) : Searched dev (windows endOffset) search := by
  rw [windows]
  by_cases wide : 64 ≤ endOffset
  · have start : (endOffset : Int) - 64 = (endOffset - 64 : Nat) := by omega
    rw [start] at run
    rw [if_pos wide]
    exact searchLoop_searched (by omega) run
  · have negative : ¬(endOffset : Int) - 64 ≥ 0 := by omega
    rw [if_neg wide]
    cases fuel with
    | zero => cases run
    | succ fuel =>
      rw [searchLoop, if_neg negative] at run
      cases run
      exact ⟨nofun, .inr ⟨rfl, nofun⟩⟩

theorem tableSearch_returns (fuel : Nat) (inside : endOffset ≤ dev.len.toNat) (enough : endOffset + 1 < fuel) :
    ∃ search, searchLoop dev fuel ((endOffset : Int) - 64) = some search := by
  by_cases wide : 64 ≤ endOffset
  · have start : (endOffset : Int) - 64 = (endOffset - 64 : Nat) := by omega
    rw [start]
    exact searchLoop_returns (by omega) (by omega)
  · have negative : ¬(endOffset : Int) - 64 ≥ 0 := by omega
    cases fuel with
    | zero => omega
    | succ fuel =>
      rw [searchLoop, if_neg negative]
      exact ⟨_, rfl⟩

theorem toInt32_short {len : UInt32} (short : len.toNat < 2 ^ 31) : len.toInt32.toInt = len.toNat := by
  have signed : len.toInt32.toInt = (len.toNat : Int).bmod (2 ^ 32) := BitVec.toInt_eq_toNat_bmod _
  rw [signed]
  exact Int.bmod_eq_of_le (by omega) (by omega)

theorem toInt32_long {len : UInt32} (long : 2 ^ 31 ≤ len.toNat) : len.toInt32.toInt < 0 := by
  have signed : len.toInt32.toInt = (len.toNat : Int).bmod (2 ^ 32) := BitVec.toInt_eq_toNat_bmod _
  have bound : len.toNat < 2 ^ 32 := len.toNat_lt
  rw [signed, Int.bmod_def]
  omega

theorem falPartitionLoad_refused (long : 2 ^ 31 ≤ dev.len.toNat) :
    falPartitionLoad dev endOffset malloc realloc fuel = some ⟨none, [], [], [], true⟩ := by
  have negative := toInt32_long long
  rw [falPartitionLoad, if_pos (by omega)]

theorem falPartitionLoad_searches (inside : endOffset < dev.len.toNat) (short : dev.len.toNat < 2 ^ 31) :
    falPartitionLoad dev endOffset true realloc fuel =
      match searchLoop dev fuel ((endOffset : Int) - 64) with
      | none => none
      | some search =>
        match search.located with
        | none => some ⟨none, search.reads, [], [], false⟩
        | some offset =>
          (loadLoop dev realloc offset fuel 0).map fun load =>
            { load with
              reads := search.reads ++ load.reads
              table := if load.failed then [] else load.table } := by
  have length := toInt32_short short
  exact (if_neg (by omega)).trans (if_neg nofun)

theorem falPartitionLoad_full (inside : endOffset < dev.len.toNat) (short : dev.len.toNat < 2 ^ 31) :
    falPartitionLoad dev endOffset false realloc fuel = some ⟨none, [], [], [], true⟩ := by
  have length := toInt32_short short
  rw [falPartitionLoad, if_neg (by omega), if_pos rfl]

theorem TableLoad.Sound.nothing (inside : ∀ r ∈ reads, 0 ≤ r ∧ r + tableItemSize ≤ dev.len.toNat)
    (why : malloc = true → ∀ q, q + 4 ≤ endOffset → ¬MagicAt dev q) :
    TableLoad.Sound dev endOffset malloc realloc ⟨none, reads, [], [], failed⟩ where
  reads := inside
  clears := nofun
  found memory there := by
    obtain ⟨q, below, magic⟩ := there
    exact absurd magic (why memory q below)
  table := nofun

theorem TableLoaded.sound (loaded : TableLoaded dev realloc p n 0 load) (searched : Searched dev list search)
    (few : n ≤ tableItemSize) (bottom : tableItemSize * n ≤ p) (magic : MagicAt dev p)
    (chain : ∀ j < n, MagicAt dev (p - tableItemSize * j)) (last : ¬MagicAt dev (p - tableItemSize * n)) :
    TableLoad.Sound dev endOffset malloc realloc
      { load with
        reads := search.reads ++ load.reads
        table := if load.failed then [] else load.table } where
  reads r member := by
    rcases List.mem_append.mp member with early | late
    · exact searched.reads r early
    · exact loaded.reads r late
  clears m member := Nat.le_trans (loaded.clears m member) few
  found _ _ := by
    rw [loaded.located]
    nofun
  table _ memory offset located := by
    rw [loaded.located] at located
    have fine : load.failed = false := by
      by_contra bad
      obtain ⟨m, full⟩ := loaded.failed (eq_true_of_ne_false bad)
      rw [memory m] at full
      cases full
    refine ⟨p, (Option.some.inj located).symm, magic, n, ?_, fun j less => ⟨?_, chain j less⟩, fun more => last more.2⟩
    · simp only [fine]
      rw [if_neg Bool.false_ne_true, loaded.table fine, Nat.sub_zero, List.range_eq_range']
    · exact Nat.le_trans (Nat.mul_le_mul_left _ (Nat.le_of_lt less)) bottom

theorem sound_of_loadable (inside : endOffset < dev.len.toNat) (loadable : Loadable dev endOffset) (malloc : Bool)
    (realloc : Nat → Bool) :
    ∃ fuel load, falPartitionLoad dev endOffset malloc realloc fuel = some load ∧
      load.Sound dev endOffset malloc realloc := by
  by_cases long : 2 ^ 31 ≤ dev.len.toNat
  · rcases loadable with none | ⟨short, -⟩
    · exact ⟨0, _, falPartitionLoad_refused long, .nothing nofun fun _ => none⟩
    · omega
  have short : dev.len.toNat < 2 ^ 31 := by omega
  cases malloc with
  | false => exact ⟨0, _, falPartitionLoad_full inside short, .nothing nofun nofun⟩
  | true =>
    rcases loadable with none | ⟨-, p, n, located, fits, few, bottom, chain, last⟩
    · obtain ⟨search, found⟩ := tableSearch_returns (endOffset + 2) (Nat.le_of_lt inside) (by omega)
      have searched := tableSearch_searched (Nat.le_of_lt inside) found
      rcases searched.located with ⟨p, -, located⟩ | ⟨missing, -⟩
      · exact absurd located.magic (none p located.below)
      · refine ⟨endOffset + 2, ⟨.none, search.reads, [], [], false⟩, ?_, .nothing searched.reads fun _ => none⟩
        rw [falPartitionLoad_searches inside short, found]
        simp only [missing]
    · obtain ⟨search, found⟩ := tableSearch_returns (endOffset + n + 2) (Nat.le_of_lt inside) (by omega)
      have searched := tableSearch_searched (Nat.le_of_lt inside) found
      rcases searched.located with ⟨p', here, located'⟩ | ⟨-, empty⟩
      · have same := located.unique located'
        subst same
        have below := located.below
        obtain ⟨load, ran, loaded⟩ := loadLoop_loaded realloc (endOffset + n + 2) fits (by omega)
          bottom chain last (Nat.zero_le n) (by omega)
        refine ⟨endOffset + n + 2, _, ?_, loaded.sound searched few bottom located.magic chain last⟩
        rw [falPartitionLoad_searches inside short, found]
        simp only [here, ran]
        rfl
      · obtain ⟨w, member, hit⟩ := located.hits
        exact absurd hit (empty w member p)

theorem loadable_of_sound (inside : endOffset < dev.len.toNat)
    (sound : ∀ malloc realloc, ∃ fuel load, falPartitionLoad dev endOffset malloc realloc fuel = some load ∧
      load.Sound dev endOffset malloc realloc) : Loadable dev endOffset := by
  by_cases none : ∀ q, q + 4 ≤ endOffset → ¬MagicAt dev q
  · exact .inl none
  have there : ∃ q, q + 4 ≤ endOffset ∧ MagicAt dev q := by
    by_contra nowhere
    exact none fun q below magic => nowhere ⟨q, below, magic⟩
  obtain ⟨fuel, load, run, sound⟩ := sound true fun _ => true
  have found := sound.found rfl there
  by_cases long : 2 ^ 31 ≤ dev.len.toNat
  · rw [falPartitionLoad_refused long] at run
    cases run
    exact absurd rfl found
  have short : dev.len.toNat < 2 ^ 31 := by omega
  rw [falPartitionLoad_searches inside short] at run
  cases searching : searchLoop dev fuel ((endOffset : Int) - 64) with
  | none =>
    rw [searching] at run
    cases run
  | some search =>
    rw [searching] at run
    have searched := tableSearch_searched (Nat.le_of_lt inside) searching
    rcases searched.located with ⟨p, here, located⟩ | ⟨missing, -⟩
    · simp only [here] at run
      obtain ⟨loaded, loading, same⟩ := Option.map_eq_some_iff.mp run
      subst same
      have reads : ∀ r ∈ loaded.reads, 0 ≤ r ∧ r + tableItemSize ≤ dev.len.toNat :=
        fun r member => sound.reads r (List.mem_append_right _ member)
      have low := located.below
      have first := reads _ (loadLoop_starts loading).1
      have whole : toLong (p - tableItemSize * (0 : Nat)) = p := by
        rw [toLong_eq] <;> omega
      rw [whole] at first
      have fits : p + tableItemSize ≤ dev.len.toNat := by omega
      -- the first place below which there is no record
      have ends : ∃ n, ¬(tableItemSize * n ≤ p ∧ MagicAt dev (p - tableItemSize * n)) :=
        ⟨p + 1, fun more => absurd more.1 (by rw [tableItemSize]; omega)⟩
      have chain : ∀ j < Nat.find ends, tableItemSize * j ≤ p ∧ MagicAt dev (p - tableItemSize * j) :=
        fun j less => not_not.mp (Nat.find_min ends less)
      have last := Nat.find_spec ends
      generalize Nat.find ends = n at chain last
      obtain ⟨place, cleared⟩ := loadLoop_reaches loading fits (by omega) (Nat.zero_le n) fun j _ => chain j
      have few : n ≤ tableItemSize := sound.clears n cleared
      have positive := (reads _ place).1
      have bottom : tableItemSize * n ≤ p := by
        simp only [tableItemSize] at few positive ⊢
        rw [toLong_eq (by omega) (by omega)] at positive
        omega
      exact .inr ⟨short, p, n, located, fits, few, bottom, fun j less => (chain j less).2, fun more => last ⟨bottom, more⟩⟩
    · simp only [missing] at run
      cases run
      exact absurd rfl found

end

def noStray (_ : Int) : Int × (Nat → UInt8) := (-1, fun _ => 0xff)

/-- A flash of 200 bytes that is erased but for the magic words of a few records. -/
def tableFlash (places : List Nat) : TableDev where
  len := 200
  content i :=
    if i ∈ places then 0x30
    else if i - 1 ∈ places then 0x31
    else if i - 2 ∈ places then 0x50
    else if i - 3 ∈ places then 0x45
    else 0xff
  stray := noStray

theorem tableFlash_located : LocatedIn (tableFlash [64]) (windows 128) 64 := by
  have list : windows 128 = windowsFrom 64 := rfl
  rw [list, windowsFrom]
  exact .inl ⟨⟨Nat.le_refl _, by omega, by decide⟩, fun q less hit => absurd hit.1 (by omega)⟩

/-- `fal_partition_init` finds and loads the partition table of the flash, inside the flash and inside its buffer. It
does exactly where the table that its windows show ends before the start of the flash and before its buffer does. -/
theorem partition_table {dev : TableDev} {endOffset : Nat} (inside : endOffset < dev.len.toNat) :
    (∀ malloc realloc, ∃ fuel load, falPartitionLoad dev endOffset malloc realloc fuel = some load ∧
      load.Sound dev endOffset malloc realloc) ↔ Loadable dev endOffset :=
  ⟨loadable_of_sound inside, sound_of_loadable inside⟩

theorem partition_table_demo : 128 < (tableFlash [64]).len.toNat ∧
    ∀ malloc realloc, ∃ fuel load, falPartitionLoad (tableFlash [64]) (128 : Nat) malloc realloc fuel = some load ∧
      load.Sound (tableFlash [64]) 128 malloc realloc := by
  have one : ∀ j < 1, MagicAt (tableFlash [64]) (64 - tableItemSize * j) := by decide
  have last : ¬MagicAt (tableFlash [64]) (64 - tableItemSize * 1) := by decide
  refine ⟨by decide, (partition_table (by decide)).mpr (.inr ⟨by decide, 64, 1, tableFlash_located, ?_⟩)⟩
  exact ⟨by decide, by decide, by decide, one, last⟩

/-- The last record of the table is at the start of the flash, and the load reads on below it. -/
theorem partition_table_below : ¬∀ malloc realloc, ∃ fuel load,
    falPartitionLoad (tableFlash [0]) (64 : Nat) malloc realloc fuel = some load ∧
      load.Sound (tableFlash [0]) 64 malloc realloc := by
  intro sound
  have only : ∀ p < 61, MagicAt (tableFlash [0]) p → p = 0 := by decide
  rcases loadable_of_sound (by decide) sound with none | ⟨-, p, n, located, -, -, bottom, -, last⟩
  · exact none 0 (by omega) (by decide)
  · have start := only p (by have := located.below; omega) located.magic
    subst start
    have empty : n = 0 := by
      rw [tableItemSize] at bottom
      omega
    rw [empty] at last
    exact last (by decide)

end RtThread.Flash
