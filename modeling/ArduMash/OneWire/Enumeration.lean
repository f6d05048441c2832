import ArduMash.OneWire.Search
import ArduMash.OneWire.Triplet
import Mathlib.Data.List.Sort
import Mathlib.Data.Nat.Bitwise

/-!
One search after the other. A search walks down the ROM codes of the devices that
answer it; what it keeps for the next one is the last split at which it went the way
of the 0. Called again and again it hands out the ROM codes in their order, then
nothing once, and starts over.
-/

namespace ArduMash.OneWire.Enumeration
open Line Crc Devices Addressing Search Triplet Foundation.WordSearch

/-! One bit. -/

theorem mask_read (byte : Byte) (k : ℕ) :
    decide (byte &&& maskAt k > 0) = byte.getLsbD (k % 8) := by
  have positions : ∀ byte : Byte, ∀ m < 8,
      decide (byte &&& ((1 : Byte) <<< m) > 0) = byte.getLsbD m := by decide
  exact positions byte (k % 8) (Nat.mod_lt k (by decide))

theorem mask_next (k : ℕ) :
    (if maskAt k <<< 1 = 0 then k / 8 + 1 else k / 8) = (k + 1) / 8 ∧
      (if maskAt k <<< 1 = 0 then (1 : Byte) else maskAt k <<< 1) = maskAt (k + 1) := by
  have positions : ∀ m : ℕ, m < 8 → ((1 : Byte) <<< m <<< 1 = 0 ↔ m = 7) := by decide
  have wraps : maskAt k <<< 1 = 0 ↔ k % 8 = 7 := positions (k % 8) (Nat.mod_lt k (by decide))
  simp only [wraps]
  by_cases last : k % 8 = 7
  · have first : (k + 1) % 8 = 0 := by omega
    rw [if_pos last, if_pos last, maskAt, first]
    exact ⟨by omega, rfl⟩
  · have later : (k + 1) % 8 = k % 8 + 1 := by omega
    rw [if_neg last, if_neg last, maskAt, maskAt, later]
    exact ⟨by omega, (BitVec.shiftLeft_add _ _ _).symm⟩

section OneBit
variable {members : Set (Word 64)} {choose : Fin 64 → Bool} {rom : Address} {mark : ℕ} {k : Fin 64}
  {idBit cmpIdBit : Bool} (walking : Walking members choose k (word rom) mark)
  (one : idBit = true ↔ Only members (word rom) k true)
  (zero : cmpIdBit = true ↔ Only members (word rom) k false)
include walking one zero

theorem not_both : (idBit && cmpIdBit) = false := by
  obtain ⟨x, member, agree⟩ := walking.alive
  by_contra both
  rw [Bool.not_eq_false, Bool.and_eq_true] at both
  have high := one.mp both.1 x member agree
  have low := zero.mp both.2 x member agree
  rw [high] at low
  cases low

theorem splits_heard : Splits members (word rom) k ↔ idBit = cmpIdBit := by
  have notBoth := not_both walking one zero
  rw [splits_iff, ← one, ← zero]
  revert notBoth
  cases idBit <;> cases cmpIdBit <;> simp

/-- The search goes on in the direction that is forced, or chosen where the devices differ. -/
theorem walking_turn {direction : Bool} (forced : idBit ≠ cmpIdBit → direction = idBit)
    (chosen : idBit = cmpIdBit → direction = choose k) :
    Walking members choose (k + 1) (word (setBit rom k direction))
      (if idBit = cmpIdBit ∧ direction = false then k + 1 else mark) := by
  have notBoth := not_both walking one zero
  have splits := splits_heard walking one zero
  have here : word (setBit rom k direction) k = direction := by
    rw [word_apply, bit_setBit _ _ k.isLt, if_pos rfl]
  have agree : Agree k (word (setBit rom k direction)) (word rom) := by
    intro i before
    rw [word_apply, word_apply, bit_setBit _ _ i.isLt, if_neg (Nat.ne_of_lt before)]
  have step := walking.step agree
    (fun ones => by
      have high := one.mpr ones
      have low : cmpIdBit = false := by simpa [high] using notBoth
      rw [here, forced (by simp [high, low]), high])
    (fun zeros => by
      have high := zero.mpr zeros
      have low : idBit = false := by simpa [high] using notBoth
      rw [here, forced (by simp [high, low]), low])
    (fun split => by rw [here, chosen (splits.mp split)])
  simpa only [splits, here] using step

end OneBit

/-- The search state `s` has brought the loop to bit `k`. -/
structure Walks (searchMode : Bool) (bus : Bus) (s : SearchState) (k : ℕ) (scan : Scan) :
    Prop where
  number : scan.idBitNumber = k + 1
  byteNumber : scan.romByteNumber = k / 8
  mask : scan.romByteMask = maskAt k
  last : scan.search.lastDiscrepancy = s.lastDiscrepancy
  flag : scan.search.lastDeviceFlag = s.lastDeviceFlag
  kept : ∀ j, k ≤ j → j < 64 → scan.search.romNo.bit j = s.romNo.bit j
  walking : Walking (members searchMode bus) (resume (word s.romNo) s.lastDiscrepancy) k
    (word scan.search.romNo) scan.lastZero

section Scan
variable {searchMode : Bool} {bus : Bus} {s : SearchState} {scan : Scan}

theorem walks_start (found : (members searchMode bus).Nonempty) :
    Walks searchMode bus s 0 ⟨1, 0, 0, 1, s⟩ where
  number := rfl
  byteNumber := rfl
  mask := rfl
  last := rfl
  flag := rfl
  kept := fun _ _ _ => rfl
  walking := walking_start found _

theorem next_romNo {k : ℕ} (walks : Walks searchMode bus s k scan) (idBit cmpIdBit : Bool) :
    (scan.next idBit cmpIdBit).search.romNo =
      setBit scan.search.romNo k (searchDirection scan idBit cmpIdBit) := by
  rw [setBit, ← walks.mask, ← walks.byteNumber]
  rfl

/-- Where the devices differ the bit is the chosen one. -/
theorem direction_choice {k : Fin 64} (walks : Walks searchMode bus s k scan) (both : Bool) :
    searchDirection scan both both = resume (word s.romNo) s.lastDiscrepancy k := by
  have kept := walks.kept k (Nat.le_refl _) k.isLt
  rw [Octets.bit] at kept
  rw [searchDirection, if_neg (not_not.mpr rfl), walks.number, walks.last, walks.byteNumber,
    walks.mask, mask_read, kept]
  rfl

theorem walks_next {k : Fin 64} (walks : Walks searchMode bus s k scan) {idBit cmpIdBit : Bool}
    (one : idBit = true ↔ Only (members searchMode bus) (word scan.search.romNo) k true)
    (zero : cmpIdBit = true ↔ Only (members searchMode bus) (word scan.search.romNo) k false) :
    (idBit && cmpIdBit) = false ∧ Walks searchMode bus s (k + 1) (scan.next idBit cmpIdBit) := by
  refine ⟨not_both walks.walking one zero, ?_⟩
  obtain ⟨byteNumber, mask⟩ := mask_next k
  constructor
  · exact congrArg (· + 1) walks.number
  · rw [← byteNumber, ← walks.mask, ← walks.byteNumber]
    rfl
  · rw [← mask, ← walks.mask]
    rfl
  · exact walks.last
  · exact walks.flag
  · intro j after inside
    rw [next_romNo walks, bit_setBit _ _ inside, if_neg (by omega)]
    exact walks.kept j (by omega) inside
  · have zeroPicked : (scan.next idBit cmpIdBit).lastZero =
        if idBit = cmpIdBit ∧ searchDirection scan idBit cmpIdBit = false then k.val + 1
        else scan.lastZero := by
      rw [← walks.number]
      rfl
    rw [zeroPicked, next_romNo walks]
    refine walking_turn walks.walking one zero (fun differ => if_pos differ) fun split => ?_
    rw [split]
    exact direction_choice walks _

/-- The loop runs through all 64 bits, as long as a device answers. -/
theorem scanLoop_walks {k fuel : ℕ} (all : k + fuel = 64)
    (walks : Walks searchMode bus s k scan) :
    ∃ last, scanLoop Bus.wire fuel scan (searching searchMode scan.search.romNo k bus) =
        (last, searching searchMode last.search.romNo 64 bus) ∧
      Walks searchMode bus s 64 last := by
  induction fuel generalizing k scan with
  | zero =>
    obtain rfl : k = 64 := all
    exact ⟨scan, rfl, walks⟩
  | succ fuel ih =>
    have inside : k < 64 := by omega
    obtain ⟨idBit, readId, one⟩ := read_id searchMode scan.search.romNo bus ⟨k, inside⟩
    obtain ⟨cmpIdBit, readComplement, zero⟩ :=
      read_complement searchMode scan.search.romNo bus ⟨k, inside⟩
    have walksHere : Walks searchMode bus s (⟨k, inside⟩ : Fin 64).val scan := walks
    obtain ⟨notBoth, next⟩ := walks_next walksHere one zero
    have round : scanBit Bus.wire scan (searching searchMode scan.search.romNo k bus) =
        (decide (k + 1 < 64), scan.next idBit cmpIdBit,
          searching searchMode (scan.next idBit cmpIdBit).search.romNo (k + 1) bus) := by
      have goesOn : (scan.next idBit cmpIdBit).romByteNumber < 8 ↔ k + 1 < 64 := by
        rw [next.byteNumber]
        change (k + 1) / 8 < 8 ↔ _
        omega
      rw [next_romNo walks, ← write_direction _ _ _ ⟨k, inside⟩]
      simp only [scanBit, readId, readComplement, notBoth, goesOn]
      rfl
    rw [scanLoop, round]
    by_cases more : k + 1 < 64
    · simp only [more, decide_true, if_true]
      exact ih (by omega) next
    · obtain rfl : k = 63 := by omega
      exact ⟨_, rfl, next⟩

end Scan

/-! One search. -/

section OneSearch
variable (searchMode : Bool) (bus : Bus) {s : SearchState}

/-- Both bits read as 1 when no device answers. -/
theorem read_nobody (nobody : members searchMode bus = ∅) (rom : Address) :
    Bus.wire.readBit (searching searchMode rom 0 bus) =
        (true, among searchMode rom 0 (.searchComplement 0) bus) ∧
      Bus.wire.readBit (among searchMode rom 0 (.searchComplement 0) bus) =
        (true, among searchMode rom 0 (.searchDirection 0) bus) := by
  have all : ∀ bit, Only (members searchMode bus) (word rom) 0 bit := by
    intro bit x member
    rw [nobody] at member
    cases member
  obtain ⟨idBit, readId, one⟩ := read_id searchMode rom bus 0
  obtain ⟨cmpIdBit, readComplement, zero⟩ := read_complement searchMode rom bus 0
  obtain rfl := one.mpr (all true)
  obtain rfl := zero.mpr (all false)
  exact ⟨readId, readComplement⟩

theorem scanLoop_nobody (nobody : members searchMode bus = ∅) (s : SearchState) :
    ∃ after, scanLoop Bus.wire 64 ⟨1, 0, 0, 1, s⟩ (searching searchMode s.romNo 0 bus) =
        (⟨1, 0, 0, 1, s⟩, after) ∧ settled after = settled bus := by
  obtain ⟨readId, readComplement⟩ := read_nobody searchMode bus nobody s.romNo
  refine ⟨among searchMode s.romNo 0 (.searchDirection 0) bus, ?_, settled_enter _ bus⟩
  have round : scanBit Bus.wire ⟨1, 0, 0, 1, s⟩ (searching searchMode s.romNo 0 bus) =
      (false, ⟨1, 0, 0, 1, s⟩, among searchMode s.romNo 0 (.searchDirection 0) bus) := by
    simp only [scanBit, readId, readComplement]
    rfl
  rw [scanLoop, round]
  rfl

theorem conclude_bus (scan : Scan) (bus : Bus) : (conclude scan bus).bus = bus := by
  unfold conclude
  simp only
  split_ifs <;> rfl

theorem presence {searchMode : Bool} {bus : Bus} (found : (members searchMode bus).Nonempty) :
    (Bus.wire.reset bus).1 = true := by
  obtain ⟨x, d, member, _⟩ := found
  rw [reset_eq]
  cases devices : bus.devices with
  | nil =>
    rw [devices] at member
    cases member
  | cons _ _ => rfl

/-- What a search makes of the line before it concludes. -/
theorem search_cases (notLast : s.lastDeviceFlag = false) :
    (members searchMode bus = ∅ ∧
      ∃ after, search Bus.wire searchMode s bus = ⟨none, s.restart, after⟩ ∧
        settled after = settled bus) ∨
    ∃ scan : Scan, Walks searchMode bus s 64 scan ∧
      search Bus.wire searchMode s bus =
        conclude scan (searching searchMode scan.search.romNo 64 bus) := by
  have goesOn : search Bus.wire searchMode s bus =
      if (Bus.wire.reset bus).1 then
        conclude (scanLoop Bus.wire 64 ⟨1, 0, 0, 1, s⟩ (searching searchMode s.romNo 0 bus)).1
          (scanLoop Bus.wire 64 ⟨1, 0, 0, 1, s⟩ (searching searchMode s.romNo 0 bus)).2
      else ⟨none, s.restart, (Bus.wire.reset bus).2⟩ := by
    rw [search, if_neg (by simp [notLast]), ← search_command]
  rcases Set.eq_empty_or_nonempty (members searchMode bus) with nobody | found
  · refine .inl ⟨nobody, ?_⟩
    rw [goesOn]
    by_cases present : (Bus.wire.reset bus).1
    · obtain ⟨after, result, unchanged⟩ := scanLoop_nobody searchMode bus nobody s
      rw [if_pos present, result]
      exact ⟨after, rfl, unchanged⟩
    · rw [if_neg present]
      exact ⟨_, rfl, settled_enter _ bus⟩
  · obtain ⟨scan, result, walks⟩ :=
      scanLoop_walks (show 0 + 64 = 64 from rfl) (walks_start (s := s) found)
    rw [goesOn, if_pos (presence found), result]
    exact .inr ⟨scan, walks, rfl⟩

/-- A search changes nothing but the phases of the devices. -/
theorem search_settled (s : SearchState) :
    settled (search Bus.wire searchMode s bus).bus = settled bus := by
  cases last : s.lastDeviceFlag with
  | true => rw [search, if_pos last]
  | false =>
    rcases search_cases searchMode bus last with ⟨_, after, result, unchanged⟩ | walked
    · rw [result]
      exact unchanged
    · obtain ⟨scan, _, result⟩ := walked
      rw [result, conclude_bus, settled_searching]

end OneSearch

/-! The order in which the ROM codes come. -/

/-- The ROM code as a number whose highest bit is the one sent first. -/
def rank (rom : Address) : ℕ := Nat.ofBits fun i : Fin 64 => rom.bit (63 - i)

theorem rank_lt_rank {first second : Address} :
    rank first < rank second ↔ word first < word second := by
  have mono : ∀ {first second : Address}, word first < word second → rank first < rank second := by
    intro first second less
    obtain ⟨k, agree, zero, one⟩ := lt_iff.mp less
    have position : ∀ rom : Address, ∀ j : Fin 64, (rank rom).testBit (63 - j) = word rom j := by
      intro rom j
      rw [rank, Nat.testBit_ofBits_lt _ _ (by omega), word_apply]
      congr 1
      change 63 - (63 - j.val) = j.val
      omega
    refine Nat.lt_of_testBit (63 - k) ((position first k).trans zero)
      ((position second k).trans one) fun j above => ?_
    by_cases inside : j < 64
    · have same := agree ⟨63 - j, by omega⟩ (by simp only; omega)
      rw [← position, ← position] at same
      simpa [show 63 - (63 - j) = j by omega] using same
    · rw [rank, rank, Nat.testBit_ofBits_ge _ _ (by omega), Nat.testBit_ofBits_ge _ _ (by omega)]
  refine ⟨fun less => ?_, mono⟩
  rcases lt_trichotomy (word first) (word second) with below | same | above
  · exact below
  · rw [word_injective same] at less
    exact absurd less (Nat.lt_irrefl _)
  · exact absurd (mono above) (Nat.lt_asymm less)

/-- The ROM codes of the devices that answer, in their order. -/
def roster (searchMode : Bool) (bus : Bus) : List Address :=
  ((bus.devices.filter fun d => Answers searchMode d).map Device.rom).insertionSort
    fun first second => rank first ≤ rank second

theorem mem_roster {searchMode : Bool} {bus : Bus} {rom : Address} :
    rom ∈ roster searchMode bus ↔ ∃ d ∈ bus.devices, Answers searchMode d ∧ d.rom = rom := by
  simp only [roster, List.mem_insertionSort, List.mem_map, List.mem_filter, decide_eq_true_eq,
    and_assoc]

theorem mem_members {searchMode : Bool} {bus : Bus} {x : Word 64} :
    x ∈ members searchMode bus ↔ x ∈ (roster searchMode bus).map word := by
  simp only [members, Set.mem_ofPred_eq, List.mem_map, mem_roster]
  constructor
  · rintro ⟨d, member, answers, rfl⟩
    exact ⟨d.rom, ⟨d, member, answers, rfl⟩, rfl⟩
  · rintro ⟨_, ⟨d, member, answers, rfl⟩, rfl⟩
    exact ⟨d, member, answers, rfl⟩

theorem roster_nil {searchMode : Bool} {bus : Bus} :
    roster searchMode bus = [] ↔ members searchMode bus = ∅ := by
  rw [List.eq_nil_iff_forall_not_mem, Set.eq_empty_iff_forall_notMem]
  simp only [mem_members, List.mem_map]
  constructor
  · rintro none x ⟨rom, member, _⟩
    exact none rom member
  · exact fun none rom member => none (word rom) ⟨rom, member, rfl⟩

theorem roster_sorted (searchMode : Bool) (bus : Bus) :
    ((roster searchMode bus).map word).Pairwise (· < ·) := by
  have different : (roster searchMode bus).Nodup := by
    refine (List.perm_insertionSort _ _).nodup_iff.mpr ?_
    exact bus.distinct.sublist (List.filter_sublist.map Device.rom)
  have ordered : (roster searchMode bus).Pairwise fun first second => rank first ≤ rank second := by
    have total : Std.Total fun first second : Address => rank first ≤ rank second :=
      ⟨fun first second => Nat.le_total _ _⟩
    have trans : IsTrans Address fun first second => rank first ≤ rank second :=
      ⟨fun _ _ _ => Nat.le_trans⟩
    exact List.pairwise_insertionSort _ _
  rw [List.pairwise_map]
  refine (ordered.and different).imp ?_
  rintro first second ⟨upTo, apart⟩
  have above : ¬word second < word first := fun less =>
    absurd (rank_lt_rank.mpr less) (Nat.not_lt.mpr upTo)
  exact lt_of_le_of_ne (not_lt.mp above) fun same => apart (word_injective same)

theorem family_bits {rom : Address} (zero : rom.get 0 = 0) {k : ℕ} (inside : k < 8) :
    rom.bit k = false := by
  rw [Octets.bit, Nat.div_eq_of_lt inside, zero]
  exact BitVec.getLsbD_zero

/-- ROM codes without a family come first. -/
theorem family_zero_first {searchMode : Bool} {bus : Bus} {rom first : Address}
    (member : rom ∈ roster searchMode bus) (zero : rom.get 0 = 0)
    (least : (roster searchMode bus)[0]? = some first) : first.get 0 = 0 := by
  apply BitVec.eq_of_getLsbD_eq
  intro i inside
  have bit : first.bit i = rom.bit i := by
    obtain ⟨j, atJ⟩ := List.mem_iff_getElem?.mp member
    rcases Nat.eq_zero_or_pos j with start | later
    · rw [start, least] at atJ
      rw [Option.some.inj atJ]
    · have less := (getElem?_lt (roster_sorted searchMode bus) (a := word first) (b := word rom)
        (by rw [List.getElem?_map, least]; rfl) (by rw [List.getElem?_map, atJ]; rfl)).mpr later
      obtain ⟨k, agree, _, one⟩ := lt_iff.mp less
      have beyond : 8 ≤ k.val := by
        by_contra before
        rw [word_apply, family_bits zero (Nat.lt_of_not_le before)] at one
        cases one
      exact agree ⟨i, by omega⟩ (Nat.lt_of_lt_of_le inside beyond)
  rw [family_bits zero inside, Octets.bit, Nat.div_eq_of_lt inside, Nat.mod_eq_of_lt inside] at bit
  exact bit.trans BitVec.getLsbD_zero.symm

section Places
variable {searchMode : Bool} {bus : Bus} {last rom : Address} {c mark : ℕ}

theorem members_eq (searchMode : Bool) (bus : Bus) :
    members searchMode bus = {x | x ∈ (roster searchMode bus).map word} :=
  Set.ext fun _ => mem_members

theorem getElem?_word {roms : List Address} :
    (roms.map word)[c]? = some (word rom) ↔ roms[c]? = some rom := by
  rw [List.getElem?_map, Option.map_eq_some_iff]
  constructor
  · rintro ⟨other, here, same⟩
    rwa [← word_injective same]
  · exact fun here => ⟨rom, here, rfl⟩

theorem first_rom
    (follows : Follows (members searchMode bus) (resume (word last) 0) (word rom)) :
    (roster searchMode bus)[0]? = some rom := by
  have least := least_of_resume follows
  rw [members_eq] at least
  exact getElem?_word.mp (first_of_least (roster_sorted searchMode bus) least)

theorem next_rom (current : (roster searchMode bus)[c]? = some last)
    (marked : LastPending (members searchMode bus) (word last) mark) (positive : 0 < mark)
    (follows : Follows (members searchMode bus) (resume (word last) mark) (word rom)) :
    (roster searchMode bus)[c + 1]? = some rom := by
  have atCurrent := getElem?_word.mpr current
  have next := next_of_resume (mem_members.mpr (List.mem_of_getElem? atCurrent)) marked positive
    follows
  rw [members_eq] at next
  exact getElem?_word.mp (next_of_least (roster_sorted searchMode bus) atCurrent next)

theorem last_rom (current : (roster searchMode bus)[c]? = some last)
    (marked : LastPending (members searchMode bus) (word last) 0) :
    (roster searchMode bus).length = c + 1 := by
  have atCurrent := getElem?_word.mpr current
  have greatest := greatest_of_settled (mem_members.mpr (List.mem_of_getElem? atCurrent))
    fun k => marked.settled k (Nat.zero_le _)
  rw [members_eq] at greatest
  have length := end_of_greatest (roster_sorted searchMode bus) atCurrent greatest
  rwa [List.length_map] at length

end Places

/-! The calls of `search` in their order. -/

/-- What the search state knows after the `c`-th ROM code was found. -/
def Ready (searchMode : Bool) (bus : Bus) (c : ℕ) (s : SearchState) : Prop :=
  match c with
  | 0 => s.lastDeviceFlag = false ∧ s.lastDiscrepancy = 0
  | c + 1 => (roster searchMode bus)[c]? = some s.romNo ∧
      LastPending (members searchMode bus) (word s.romNo) s.lastDiscrepancy ∧
      s.lastDeviceFlag = decide (s.lastDiscrepancy = 0)

theorem ready_reset (searchMode : Bool) (bus : Bus) : Ready searchMode bus 0 resetSearch :=
  ⟨rfl, rfl⟩

theorem ready_restart (searchMode : Bool) (bus : Bus) (s : SearchState) :
    Ready searchMode bus 0 s.restart := ⟨rfl, rfl⟩

section Calls
variable {searchMode : Bool} {bus : Bus} {c : ℕ} {s : SearchState}

/-- A search that devices answer finds the next ROM code of the roster. -/
theorem walk_next (ready : Ready searchMode bus c s) (notLast : s.lastDeviceFlag = false)
    {scan : Scan} (walks : Walks searchMode bus s 64 scan) :
    (roster searchMode bus)[c]? = some scan.search.romNo := by
  have follows := walks.walking.follows
  cases c with
  | zero =>
    rw [ready.2] at follows
    exact first_rom follows
  | succ c =>
    obtain ⟨current, marked, flag⟩ := ready
    have positive : 0 < s.lastDiscrepancy := by
      rw [notLast] at flag
      exact Nat.pos_of_ne_zero (of_decide_eq_false flag.symm)
    exact next_rom current marked positive follows

/-- What a search concludes that devices answer. -/
theorem conclude_ready (families : ∀ rom ∈ roster searchMode bus, rom.get 0 ≠ 0)
    (notLast : s.lastDeviceFlag = false) {scan : Scan} (walks : Walks searchMode bus s 64 scan)
    (found : (roster searchMode bus)[c]? = some scan.search.romNo) (after : Bus) :
    (conclude scan after).newAddr = (roster searchMode bus)[c]? ∧
      Ready searchMode bus ((c + 1) % ((roster searchMode bus).length + 1))
        (conclude scan after).search := by
  have inside := (List.getElem?_eq_some_iff.mp found).1
  have complete : ¬scan.idBitNumber < 65 := by
    rw [walks.number]
    decide
  rw [conclude, if_neg complete]
  simp only
  rw [if_neg (families _ (List.mem_of_getElem? found)), Nat.mod_eq_of_lt (Nat.succ_lt_succ inside)]
  refine ⟨found.symm, found, walks.walking.lastPending, ?_⟩
  simp [walks.flag, notLast]

/-- The flag is set after the last ROM code. -/
theorem ready_last (ready : Ready searchMode bus c s) (last : s.lastDeviceFlag = true) :
    (roster searchMode bus).length = c := by
  cases c with
  | zero =>
    rw [ready.1] at last
    cases last
  | succ c =>
    obtain ⟨current, marked, flag⟩ := ready
    rw [last] at flag
    rw [of_decide_eq_true flag.symm] at marked
    exact last_rom current marked

/-- One call, when every device that answers has a family. -/
theorem search_next (families : ∀ rom ∈ roster searchMode bus, rom.get 0 ≠ 0)
    (ready : Ready searchMode bus c s) :
    (search Bus.wire searchMode s bus).newAddr = (roster searchMode bus)[c]? ∧
      Ready searchMode bus ((c + 1) % ((roster searchMode bus).length + 1))
        (search Bus.wire searchMode s bus).search := by
  cases last : s.lastDeviceFlag with
  | true =>
    have length := ready_last ready last
    rw [search, if_pos last, length, Nat.mod_self, ← length]
    exact ⟨(List.getElem?_eq_none (Nat.le_refl _)).symm, ready_restart _ _ s⟩
  | false =>
    rcases search_cases searchMode bus last with ⟨nobody, after, result, _⟩ | walked
    · have empty := roster_nil.mpr nobody
      have first : c = 0 := by
        cases c with
        | zero => rfl
        | succ c =>
          have current := ready.1
          rw [empty] at current
          cases current
      rw [result, empty, first]
      exact ⟨rfl, ready_restart _ _ s⟩
    · obtain ⟨scan, walks, result⟩ := walked
      have found := walk_next ready last walks
      rw [result]
      exact conclude_ready families last walks found _

/-- One call, when some device that answers has none. -/
theorem search_unfamiliar {rom : Address} (member : rom ∈ roster searchMode bus)
    (zero : rom.get 0 = 0) (ready : Ready searchMode bus 0 s) :
    (search Bus.wire searchMode s bus).newAddr = none ∧
      Ready searchMode bus 0 (search Bus.wire searchMode s bus).search := by
  rcases search_cases searchMode bus ready.1 with ⟨nobody, _, _, _⟩ | ⟨scan, walks, result⟩
  · rw [roster_nil.mpr nobody] at member
    cases member
  · have found := walk_next ready ready.1 walks
    have family := family_zero_first member zero found
    have complete : ¬scan.idBitNumber < 65 := by
      rw [walks.number]
      decide
    rw [result, conclude, if_neg complete]
    simp only
    rw [if_pos family]
    exact ⟨rfl, rfl, rfl⟩

end Calls

/-- Any search at all brings the state to some place in the roster. -/
theorem search_ready (searchMode : Bool) (bus : Bus)
    (families : ∀ rom ∈ roster searchMode bus, rom.get 0 ≠ 0) (s : SearchState) :
    ∃ c ≤ (roster searchMode bus).length,
      (search Bus.wire searchMode s bus).newAddr = (roster searchMode bus)[c]? ∧
        Ready searchMode bus ((c + 1) % ((roster searchMode bus).length + 1))
          (search Bus.wire searchMode s bus).search := by
  have nothing : ∀ after, ∃ c ≤ (roster searchMode bus).length,
      (⟨none, s.restart, after⟩ : Found Bus).newAddr = (roster searchMode bus)[c]? ∧
        Ready searchMode bus ((c + 1) % ((roster searchMode bus).length + 1)) s.restart := by
    intro _
    refine ⟨_, Nat.le_refl _, (List.getElem?_eq_none (Nat.le_refl _)).symm, ?_⟩
    rw [Nat.mod_self]
    exact ready_restart _ _ s
  cases last : s.lastDeviceFlag with
  | true =>
    rw [search, if_pos last]
    exact nothing bus
  | false =>
    rcases search_cases searchMode bus last with ⟨_, after, result, _⟩ | ⟨scan, walks, result⟩
    · rw [result]
      exact nothing after
    · have member := mem_members.mp walks.walking.follows.member
      obtain ⟨rom, inRoster, equal⟩ := List.mem_map.mp member
      obtain rfl := word_injective equal
      obtain ⟨c, found⟩ := List.mem_iff_getElem?.mp inRoster
      refine ⟨c, Nat.le_of_lt (List.getElem?_eq_some_iff.mp found).1, ?_⟩
      rw [result]
      exact conclude_ready families last walks found _

end ArduMash.OneWire.Enumeration
