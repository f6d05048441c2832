import ArduMash.OneWire.Enumeration

/-!
The calls of `search` one after the other, on a line with the same devices. Between
two calls the devices may do anything else.
-/

namespace ArduMash.OneWire.Calls
open Line Crc Devices Addressing Search Triplet Enumeration Foundation.WordSearch

theorem roster_congr {bus other : Bus} (same : settled bus = settled other) (searchMode : Bool) :
    roster searchMode bus = roster searchMode other := by
  have forgets : ∀ bus : Bus, roster searchMode (settled bus) = roster searchMode bus := by
    intro bus
    simp only [roster, settled, Bus.update, List.filter_map, List.map_map]
    rfl
  rw [← forgets bus, same, forgets other]

/-- The ROM codes that searches for all devices can find. -/
def visible (bus : Bus) : List Address :=
  if ∀ rom ∈ roster true bus, rom.get 0 ≠ 0 then roster true bus else []

theorem visible_congr {bus other : Bus} (same : settled bus = settled other) :
    visible bus = visible other := by
  rw [visible, visible, roster_congr same]

theorem mem_visible {bus : Bus} {rom : Address} (member : rom ∈ visible bus) :
    ∃ d ∈ bus.devices, d.rom = rom := by
  unfold visible at member
  split_ifs at member
  · obtain ⟨d, inBus, _, same⟩ := mem_roster.mp member
    exact ⟨d, inBus, same⟩
  · cases member

/-- A search on the way through the visible ROM codes. -/
theorem search_visible {bus : Bus} {c : ℕ} {s : SearchState} (ready : Ready true bus c s)
    (inside : c ≤ (visible bus).length) :
    (search Bus.wire true s bus).newAddr = (visible bus)[c]? ∧
      (c < (visible bus).length → Ready true bus (c + 1) (search Bus.wire true s bus).search) := by
  unfold visible at inside ⊢
  split_ifs at inside ⊢ with families
  · obtain ⟨found, next⟩ := search_next families ready
    refine ⟨found, fun more => ?_⟩
    rwa [Nat.mod_eq_of_lt (Nat.succ_lt_succ more)] at next
  · push Not at families
    obtain ⟨rom, member, zero⟩ := families
    obtain rfl : c = 0 := Nat.le_zero.mp inside
    exact ⟨(search_unfamiliar member zero ready).1, fun more => absurd more (Nat.not_lt_zero 0)⟩

/-- The search state before call `n`, when call `m` finds the line as in `bus m`. -/
def searches (searchMode : Bool) (bus : ℕ → Bus) (s : SearchState) : ℕ → SearchState
  | 0 => s
  | n + 1 => (search Bus.wire searchMode (searches searchMode bus s n) (bus n)).search

/-- The ROM code that call `n` finds. -/
def found (searchMode : Bool) (bus : ℕ → Bus) (s : SearchState) (n : ℕ) : Option Address :=
  (search Bus.wire searchMode (searches searchMode bus s n) (bus n)).newAddr

theorem ready_congr {searchMode : Bool} {bus other : Bus} {c : ℕ} {s : SearchState}
    (same : roster searchMode bus = roster searchMode other) :
    Ready searchMode bus c s ↔ Ready searchMode other c s := by
  have sameMembers : members searchMode bus = members searchMode other :=
    Set.ext fun x => by rw [mem_members, mem_members, same]
  unfold Ready
  rw [same, sameMembers]

theorem roster_twoProbes :
    roster true twoProbes = [(factoryNew 2).rom, (factoryNew 1).rom] := by
  decide +kernel

theorem twoProbes_families : ∀ rom ∈ roster true twoProbes, rom.get 0 ≠ 0 := by
  rw [roster_twoProbes]
  decide

theorem visible_twoProbes : visible twoProbes = [(factoryNew 2).rom, (factoryNew 1).rom] :=
  (if_pos twoProbes_families).trans roster_twoProbes

/-- Two ROM codes with right check sums do not differ in their last bit alone. -/
theorem eq_of_valid {rom other : Address} (valid : crc8 (rom.toList.take 7) = rom.get 7)
    (otherValid : crc8 (other.toList.take 7) = other.get 7)
    (agree : ∀ k < 63, rom.bit k = other.bit k) : rom = other := by
  have taken : ∀ rom : Address, rom.toList.take 7 = (List.range 7).map rom.get := fun _ => rfl
  have prefixes : rom.toList.take 7 = other.toList.take 7 := by
    rw [taken, taken]
    apply List.map_congr_left
    intro i inside
    apply Octets.get_eq_of_bit
    intro j small
    have before := List.mem_range.mp inside
    exact agree _ (by omega)
  have last : rom.get 7 = other.get 7 := by rw [← valid, ← otherValid, prefixes]
  apply Octets.eq_of_bit
  intro k inside
  by_cases before : k < 63
  · exact agree k before
  · obtain rfl : k = 63 := by omega
    exact congrArg (fun byte => BitVec.getLsbD byte 7) last

section Calls
variable {searchMode : Bool} {bus : ℕ → Bus} {s : SearchState}
  (same : ∀ n, roster searchMode (bus n) = roster searchMode (bus 0))
include same

/-- Once at some place, the calls go round the roster. -/
theorem found_from (families : ∀ rom ∈ roster searchMode (bus 0), rom.get 0 ≠ 0) {c : ℕ}
    (first : ℕ) (ready : Ready searchMode (bus 0) (c % ((roster searchMode (bus 0)).length + 1))
      (searches searchMode bus s first)) (n : ℕ) :
    found searchMode bus s (first + n) =
        (roster searchMode (bus 0))[(c + n) % ((roster searchMode (bus 0)).length + 1)]? ∧
      Ready searchMode (bus 0) ((c + n) % ((roster searchMode (bus 0)).length + 1))
        (searches searchMode bus s (first + n)) := by
  have oneCall : ∀ n, Ready searchMode (bus 0)
        ((c + n) % ((roster searchMode (bus 0)).length + 1))
        (searches searchMode bus s (first + n)) →
      found searchMode bus s (first + n) =
          (roster searchMode (bus 0))[(c + n) % ((roster searchMode (bus 0)).length + 1)]? ∧
        Ready searchMode (bus 0) ((c + n + 1) % ((roster searchMode (bus 0)).length + 1))
          (searches searchMode bus s (first + n + 1)) := by
    intro n before
    have next := search_next (by rwa [same]) ((ready_congr (same (first + n))).mpr before)
    rw [same, ready_congr (same _), Nat.mod_add_mod] at next
    exact next
  have readyAt : ∀ n, Ready searchMode (bus 0)
      ((c + n) % ((roster searchMode (bus 0)).length + 1))
      (searches searchMode bus s (first + n)) := by
    intro n
    induction n with
    | zero => exact ready
    | succ n ih => exact (oneCall n ih).2
  exact ⟨(oneCall n (readyAt n)).1, readyAt n⟩

/-- The calls since `reset_search` find the roster from its first ROM code to its last, then
nothing once, and so on; but nothing at all if a device without a family answers. The devices may
do anything else between two calls. -/
theorem search_enumerates (n : ℕ) :
    found searchMode bus resetSearch n =
      if ∀ rom ∈ roster searchMode (bus 0), rom.get 0 ≠ 0 then
        (roster searchMode (bus 0))[n % ((roster searchMode (bus 0)).length + 1)]?
      else none := by
  split_ifs with families
  · have start : Ready searchMode (bus 0) (0 % ((roster searchMode (bus 0)).length + 1))
        (searches searchMode bus resetSearch 0) := by
      rw [Nat.zero_mod]
      exact ready_reset searchMode (bus 0)
    have cycle := (found_from same families 0 start n).1
    simpa only [Nat.zero_add] using cycle
  · push Not at families
    obtain ⟨rom, member, zero⟩ := families
    have call : ∀ n, Ready searchMode (bus n) 0 (searches searchMode bus resetSearch n) →
        found searchMode bus resetSearch n = none ∧
          Ready searchMode (bus n) 0 (searches searchMode bus resetSearch (n + 1)) :=
      fun n before => search_unfamiliar (by rwa [same]) zero before
    have readyAt : ∀ n, Ready searchMode (bus n) 0 (searches searchMode bus resetSearch n) := by
      intro n
      induction n with
      | zero => exact ready_reset searchMode (bus 0)
      | succ n ih => exact (call n ih).2
    exact (call n (readyAt n)).1

omit same in
theorem search_enumerates_twoProbes :
    found true (fun _ => twoProbes) resetSearch 1 = some (factoryNew 1).rom := by
  rw [search_enumerates (fun _ => rfl) 1, if_pos twoProbes_families, roster_twoProbes]
  rfl

/-- The calls go on from the place the first one has found. -/
theorem found_cycle (families : ∀ rom ∈ roster searchMode (bus 0), rom.get 0 ≠ 0) {c : ℕ}
    (inside : c ≤ (roster searchMode (bus 0)).length)
    (first : (search Bus.wire searchMode s (bus 0)).newAddr = (roster searchMode (bus 0))[c]?)
    (ready : Ready searchMode (bus 0) ((c + 1) % ((roster searchMode (bus 0)).length + 1))
      (search Bus.wire searchMode s (bus 0)).search) (n : ℕ) :
    found searchMode bus s n =
      (roster searchMode (bus 0))[(c + n) % ((roster searchMode (bus 0)).length + 1)]? := by
  cases n with
  | zero =>
    rw [Nat.add_zero, Nat.mod_eq_of_lt (Nat.lt_succ_of_le inside)]
    exact first
  | succ n =>
    have later := (found_from same families 1 ready n).1
    rw [Nat.add_comm 1 n] at later
    rw [later, Nat.add_right_comm, Nat.add_assoc]

/-- From any search state at all, the calls go round the roster, from some place in it on. -/
theorem search_cycles (families : ∀ rom ∈ roster searchMode (bus 0), rom.get 0 ≠ 0) :
    ∃ c, ∀ n, found searchMode bus s n =
      (roster searchMode (bus 0))[(c + n) % ((roster searchMode (bus 0)).length + 1)]? := by
  obtain ⟨c, inside, first, ready⟩ := search_ready searchMode (bus 0) families s
  exact ⟨c, found_cycle same families inside first ready⟩

omit same in
theorem search_cycles_twoProbes :
    ∃ c, ∀ n, found true (fun _ => twoProbes) (targetSearch 0x10) n =
      (roster true twoProbes)[(c + n) % ((roster true twoProbes).length + 1)]? :=
  search_cycles (fun _ => rfl) twoProbes_families

omit same in
theorem target_notLast (familyCode : Byte) : (targetSearch familyCode).lastDeviceFlag = false := rfl

omit same in
/-- Where devices differ `target_search` goes with the family, and then down the 0s. -/
theorem target_choice (wanted : Address) {k : Fin 64} (before : k.val < 63) :
    resume (word (targetSearch (wanted.get 0)).romNo)
        (targetSearch (wanted.get 0)).lastDiscrepancy k =
      if k.val < 8 then wanted.bit k else false := by
  have discrepancy : (targetSearch (wanted.get 0)).lastDiscrepancy = 64 := rfl
  have byteInside : k.val / 8 < 8 := by omega
  have bytes : (targetSearch (wanted.get 0)).romNo.get (k / 8) =
      if k.val / 8 = 0 then wanted.get 0 else 0 := dif_pos byteInside
  rw [discrepancy, resume, if_pos (by omega), word_apply, Octets.bit, bytes]
  by_cases inFamily : k.val < 8
  · rw [if_pos inFamily, if_pos (Nat.div_eq_of_lt inFamily), Octets.bit,
      Nat.div_eq_of_lt inFamily]
  · have later : k.val / 8 ≠ 0 := by omega
    rw [if_neg inFamily, if_neg later]
    exact BitVec.getLsbD_zero

/-- After `target_search` the calls start at the first ROM code of the family, if there is one. -/
theorem search_targets (families : ∀ rom ∈ roster searchMode (bus 0), rom.get 0 ≠ 0)
    (valid : ∀ rom ∈ roster searchMode (bus 0), crc8 (rom.toList.take 7) = rom.get 7)
    {familyCode : Byte} (present : ∃ rom ∈ roster searchMode (bus 0), rom.get 0 = familyCode) :
    ∃ c, (∀ n, found searchMode bus (targetSearch familyCode) n =
        (roster searchMode (bus 0))[(c + n) % ((roster searchMode (bus 0)).length + 1)]?) ∧
      ((roster searchMode (bus 0))[c]?).map (fun rom => rom.get 0) = some familyCode ∧
      ∀ j < c, ((roster searchMode (bus 0))[j]?).map (fun rom => rom.get 0) ≠ some familyCode := by
  obtain ⟨wanted, member, rfl⟩ := present
  rcases search_cases searchMode (bus 0) (target_notLast (wanted.get 0)) with
    ⟨nobody, _⟩ | ⟨scan, walks, result⟩
  · rw [roster_nil.mpr nobody] at member
    cases member
  have follows := walks.walking.follows
  obtain ⟨rom, inRoster, equal⟩ := List.mem_map.mp (mem_members.mp follows.member)
  obtain rfl := word_injective equal
  obtain ⟨c, atC⟩ := List.mem_iff_getElem?.mp inRoster
  have chosen : ∀ k : Fin 64, k.val < 63 →
      Splits (members searchMode (bus 0)) (word scan.search.romNo) k →
      scan.search.romNo.bit k = if k.val < 8 then wanted.bit k else false := by
    intro k before splits
    exact (follows.chosen k splits).trans (target_choice wanted before)
  have wantedMember : word wanted ∈ members searchMode (bus 0) :=
    mem_members.mpr (List.mem_map_of_mem member)
  have family : scan.search.romNo.get 0 = wanted.get 0 := by
    by_contra other
    have different : word scan.search.romNo ≠ word wanted := fun same =>
      other (congrArg (fun rom => Octets.get rom 0) (word_injective same))
    obtain ⟨k, agree, parts⟩ := exists_difference different
    have inFamily : k.val < 8 := by
      by_contra beyond
      exact other (Octets.get_eq_of_bit fun j small =>
        agree ⟨8 * 0 + j, by omega⟩ (show 8 * 0 + j < k.val by omega))
    have choice := chosen k (by omega)
      (splits_of_difference follows.member wantedMember agree parts)
    rw [if_pos inFamily] at choice
    exact parts choice
  refine ⟨c, ?_, ?_, ?_⟩
  · have start := conclude_ready families (target_notLast _) walks atC
      (searching searchMode scan.search.romNo 64 (bus 0))
    rw [← result] at start
    exact found_cycle same families (Nat.le_of_lt (List.getElem?_eq_some_iff.mp atC).1) start.1
      start.2
  · rw [atC]
    exact congrArg some family
  · intro j before sameFamily
    obtain ⟨other, atJ, ofFamily⟩ := Option.map_eq_some_iff.mp sameFamily
    have less := (getElem?_lt (roster_sorted searchMode (bus 0)) (a := word other)
      (b := word scan.search.romNo) (by rw [List.getElem?_map, atJ]; rfl)
      (by rw [List.getElem?_map, atC]; rfl)).mpr before
    obtain ⟨k, agree, zero, one⟩ := lt_iff.mp less
    have otherInRoster := List.mem_of_getElem? atJ
    have parts : word scan.search.romNo k ≠ word other k := by simp [zero, one]
    have splits := splits_of_difference follows.member
      (mem_members.mpr (List.mem_map_of_mem otherInRoster)) agree.symm parts
    by_cases last : k.val < 63
    · have choice := chosen k last splits
      split_ifs at choice with inFamily
      · have bits : ∀ rom : Address, rom.get 0 = wanted.get 0 → rom.bit k = wanted.bit k := by
          intro rom sameByte
          rw [Octets.bit, Octets.bit, Nat.div_eq_of_lt inFamily, sameByte]
        exact parts (choice.trans (bits other ofFamily).symm)
      · rw [word_apply, choice] at one
        cases one
    · have same := eq_of_valid (valid _ otherInRoster) (valid _ inRoster) fun k before =>
        agree ⟨k, by omega⟩ (by simp only; omega)
      rw [same, one] at zero
      cases zero

omit same in
theorem search_targets_twoProbes :
    ∃ c, (∀ n, found true (fun _ => twoProbes) (targetSearch 0x28) n =
        (roster true twoProbes)[(c + n) % ((roster true twoProbes).length + 1)]?) ∧
      ((roster true twoProbes)[c]?).map (fun rom => rom.get 0) = some 0x28 ∧
      ∀ j < c, ((roster true twoProbes)[j]?).map (fun rom => rom.get 0) ≠ some 0x28 := by
  have valid : ∀ rom ∈ roster true twoProbes, crc8 (rom.toList.take 7) = rom.get 7 := by
    rw [roster_twoProbes]
    decide
  have present : ∃ rom ∈ roster true twoProbes, rom.get 0 = 0x28 := by
    rw [roster_twoProbes]
    decide
  have same : ∀ n : ℕ, roster true ((fun _ => twoProbes) n) =
      roster true ((fun _ => twoProbes) 0) := fun _ => rfl
  exact search_targets same twoProbes_families valid present

end Calls

end ArduMash.OneWire.Calls
