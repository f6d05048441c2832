import ArduMash.Dallas.Temperature
import ArduMash.Dallas.Inventory

/-!
The search for devices with an alarm is the library's own. It shares nothing with the
one of the OneWire library but the idea, keeps its place in other variables, and ends
for good where the other one starts over.
-/

namespace ArduMash.Dallas.Alarms
open OneWire.Line OneWire.Devices OneWire.Addressing OneWire.Triplet OneWire.Enumeration
open OneWire.Calls Library Registers Temperature Foundation.WordSearch

/-! The loop over the bits of the ROM codes. -/

/-- What the loop has noted at bit `k`, if the junction was before `start` when it began, and the
last 0 it has taken where the devices differ is before `mark`. -/
structure Notes (members : Set (Word 64)) (path : Word 64) (start k mark : ℕ) (scan : AlarmScan) :
    Prop where
  done : scan.done = decide (mark = 0)
  before : k < start → scan.sensors.alarmSearchJunction = (start : ℤ) - 1 ∧
    scan.lastJunction = (mark : ℤ) - 1
  -- the junction stays behind if the devices do not differ there
  after : start ≤ k → scan.sensors.alarmSearchJunction = (mark : ℤ) - 1 ∨
    scan.sensors.alarmSearchJunction = (start : ℤ) - 1 ∧
      ∃ m : Fin 64, m.val + 1 = start ∧ ¬Splits members path m

/-- The loop was started by `s` and has come to bit `k`. -/
structure AlarmWalks (bus : Bus) (s : Sensors) (start k mark : ℕ) (scan : AlarmScan) : Prop where
  frame : scan.sensors = { s with
    alarmSearchAddress := scan.sensors.alarmSearchAddress
    alarmSearchJunction := scan.sensors.alarmSearchJunction }
  kept : ∀ j, k ≤ j → j < 64 → scan.sensors.alarmSearchAddress.bit j = s.alarmSearchAddress.bit j
  walking : Walking (members false bus) (resume (word s.alarmSearchAddress) start) k
    (word scan.sensors.alarmSearchAddress) mark
  notes : Notes (members false bus) (word scan.sensors.alarmSearchAddress) start k mark scan

section Loop
variable {bus : Bus} {s : Sensors} {start : ℕ}

theorem alarmWalks_start (found : (members false bus).Nonempty)
    (junction : s.alarmSearchJunction = (start : ℤ) - 1) :
    AlarmWalks bus s start 0 0 ⟨-1, true, s⟩ where
  frame := rfl
  kept := fun _ _ _ => rfl
  walking := walking_start found _
  notes := by
    refine ⟨rfl, fun _ => ⟨junction, rfl⟩, fun none => .inl ?_⟩
    obtain rfl := Nat.le_zero.mp none
    exact junction

variable {k : Fin 64} {mark : ℕ} {scan : AlarmScan} {a nota : Bool}

/-- The address that was found last is asked where the loop has come to. -/
theorem kept_read (walks : AlarmWalks bus s start k mark scan) :
    (scan.sensors.alarmSearchAddress.get (k / 8) &&& (1 : Byte) <<< (k.val % 8) ≠ 0) ↔
      word s.alarmSearchAddress k = true := by
  have positions : ∀ byte : Byte, ∀ m < 8,
      (byte &&& ((1 : Byte) <<< m) ≠ 0 ↔ byte.getLsbD m = true) := by decide
  rw [positions _ _ (Nat.mod_lt k (by decide)), word_apply,
    ← walks.kept k (Nat.le_refl _) k.isLt]
  rfl

theorem junction_below (walks : AlarmWalks bus s start k mark scan) (beyond : start ≤ k.val) :
    scan.sensors.alarmSearchJunction < (k.val : ℤ) := by
  have inside := walks.walking.inside
  rcases walks.notes.after beyond with here | ⟨behind, _⟩ <;> omega

/-! What is taken where the devices differ. -/

theorem take_before (walks : AlarmWalks bus s start k mark scan) (inside : k.val + 1 < start) :
    scan.take k false false =
      if word s.alarmSearchAddress k then (true, scan)
      else (false, { scan with done := false, lastJunction := (k.val : ℤ) }) := by
  obtain ⟨junction, _⟩ := walks.notes.before (Nat.lt_of_succ_lt inside)
  have differs : ¬(k.val : ℤ) = scan.sensors.alarmSearchJunction := by omega
  have less : (k.val : ℤ) < scan.sensors.alarmSearchJunction := by omega
  have read := kept_read walks
  simp only [AlarmScan.take, Bool.not_false, Bool.and_true, if_true, if_neg differs, if_pos less]
  by_cases one : word s.alarmSearchAddress k = true
  · rw [if_pos (read.mpr one), if_pos one]
  · rw [if_neg (mt read.mp one), if_neg one]

theorem take_junction (walks : AlarmWalks bus s start k mark scan) (here : k.val + 1 = start) :
    scan.take k false false = (true, { scan with sensors := { scan.sensors with
      alarmSearchJunction := (mark : ℤ) - 1 } }) := by
  obtain ⟨junction, noted⟩ := walks.notes.before (by omega)
  have same : (k.val : ℤ) = scan.sensors.alarmSearchJunction := by omega
  simp only [AlarmScan.take, Bool.not_false, Bool.and_true, if_true, if_pos same, noted]

theorem take_beyond (walks : AlarmWalks bus s start k mark scan) (beyond : start ≤ k.val) :
    scan.take k false false = (false, { scan with
      done := false
      sensors := { scan.sensors with alarmSearchJunction := (k.val : ℤ) } }) := by
  have below := junction_below walks beyond
  have differs : ¬(k.val : ℤ) = scan.sensors.alarmSearchJunction := by omega
  have notLess : ¬(k.val : ℤ) < scan.sensors.alarmSearchJunction := by omega
  simp only [AlarmScan.take, Bool.not_false, Bool.and_true, if_true, if_neg differs,
    if_neg notLess]

/-- The bit that is taken, and what is noted of it. -/
theorem take_next (walks : AlarmWalks bus s start k mark scan)
    (notBoth : (a && nota) = false)
    (splits : Splits (members false bus) (word scan.sensors.alarmSearchAddress) k ↔ a = nota) :
    let taken := scan.take k a nota
    (a ≠ nota → taken.1 = a) ∧
      (a = nota → taken.1 = resume (word s.alarmSearchAddress) start k) ∧
      (∃ junction, taken.2.sensors = { scan.sensors with alarmSearchJunction := junction }) ∧
      Notes (members false bus) (word scan.sensors.alarmSearchAddress) start (k + 1)
        (if a = nota ∧ taken.1 = false then k.val + 1 else mark) taken.2 := by
  intro taken
  by_cases differ : a = nota
  · obtain ⟨rfl, rfl⟩ : a = false ∧ nota = false := by
      subst differ
      rw [Bool.and_self] at notBoth
      exact ⟨notBoth, notBoth⟩
    refine ⟨fun forced => absurd rfl forced, ?_⟩
    rcases lt_trichotomy (k.val + 1) start with inside | here | beyond
    · have junction := (walks.notes.before (Nat.lt_of_succ_lt inside)).1
      have result : taken = _ := take_before walks inside
      rw [result, resume, if_pos inside]
      cases bit : word s.alarmSearchAddress k with
      | false =>
        refine ⟨fun _ => rfl, ⟨_, rfl⟩, rfl, fun _ => ⟨junction, ?_⟩, fun after => ?_⟩
        · simp
        · omega
      | true =>
        refine ⟨fun _ => rfl, ⟨_, rfl⟩, walks.notes.done, fun _ => ?_, fun after => ?_⟩
        · exact walks.notes.before (Nat.lt_of_succ_lt inside)
        · omega
    · have result : taken = _ := take_junction walks here
      rw [result, resume, if_neg (by omega), decide_eq_true here]
      refine ⟨fun _ => rfl, ⟨_, rfl⟩, walks.notes.done, fun before => ?_, fun _ => .inl rfl⟩
      omega
    · have result : taken = _ := take_beyond walks (Nat.le_of_lt_succ beyond)
      rw [result, resume, if_neg (by omega), decide_eq_false (by omega)]
      refine ⟨fun _ => rfl, ⟨_, rfl⟩, rfl, fun before => ?_, fun _ => .inl ?_⟩
      · omega
      · simp
  · have result : taken = (a, scan) := by
      change scan.take k a nota = _
      revert notBoth differ
      cases a <;> cases nota <;> simp [AlarmScan.take]
    rw [result, if_neg fun both => differ both.1]
    refine ⟨fun _ => rfl, fun same => absurd same differ, ⟨_, rfl⟩, walks.notes.done,
      fun inside => walks.notes.before (Nat.lt_of_succ_lt inside), fun upTo => ?_⟩
    rcases Nat.le_succ_iff.mp upTo with beyond | here
    · exact walks.notes.after beyond
    · exact .inr ⟨(walks.notes.before (by omega)).1, k, here.symm, mt splits.mp differ⟩

theorem alarmWalks_next (walks : AlarmWalks bus s start k mark scan)
    (one : a = true ↔
      Only (members false bus) (word scan.sensors.alarmSearchAddress) k true)
    (zero : nota = true ↔
      Only (members false bus) (word scan.sensors.alarmSearchAddress) k false) :
    (a && nota) = false ∧
      ((scan.take k a nota).2.note k (scan.take k a nota).1).sensors.alarmSearchAddress =
        setBit scan.sensors.alarmSearchAddress k (scan.take k a nota).1 ∧
      ∃ next, AlarmWalks bus s start (k + 1) next
        ((scan.take k a nota).2.note k (scan.take k a nota).1) := by
  have notBoth := not_both walks.walking one zero
  obtain ⟨forced, chosen, ⟨junction, sensors⟩, notes⟩ :=
    take_next walks notBoth (splits_heard walks.walking one zero)
  generalize scan.take k a nota = taken at forced chosen sensors notes ⊢
  have address : (taken.2.note k taken.1).sensors.alarmSearchAddress =
      setBit scan.sensors.alarmSearchAddress k taken.1 := by
    rw [AlarmScan.note, sensors]
    rfl
  refine ⟨notBoth, address, _, ?_, ?_, ?_, notes.done, notes.before, fun upTo => ?_⟩
  · rw [AlarmScan.note, sensors, walks.frame]
  · intro j after inside
    rw [address, bit_setBit _ _ inside, if_neg (by omega)]
    exact walks.kept j (by omega) inside
  · rw [address]
    exact walking_turn walks.walking one zero forced chosen
  · refine (notes.after upTo).imp_right fun ⟨behind, m, atStart, noSplit⟩ =>
      ⟨behind, m, atStart, ?_⟩
    have agree : Agree m (word (setBit scan.sensors.alarmSearchAddress k taken.1))
        (word scan.sensors.alarmSearchAddress) := by
      intro i before
      rw [word_apply, word_apply, bit_setBit _ _ i.isLt, if_neg (by omega)]
    rw [address, splits_congr agree]
    exact noSplit

/-- The loop runs through all 64 bits, as long as a device answers. -/
theorem alarmLoop_walks {k n : ℕ} {mark : ℕ} {scan : AlarmScan} (all : k + n = 64)
    (walks : AlarmWalks bus s start k mark scan) :
    ∃ last mark, alarmLoop Bus.wire (List.range' k n) scan
        (searching false scan.sensors.alarmSearchAddress k bus) =
          (true, last, searching false last.sensors.alarmSearchAddress 64 bus) ∧
      AlarmWalks bus s start 64 mark last := by
  induction n generalizing k mark scan with
  | zero =>
    obtain rfl : k = 64 := all
    exact ⟨scan, mark, rfl, walks⟩
  | succ n ih =>
    have inside : k < 64 := by omega
    obtain ⟨a, readA, one⟩ := read_id false scan.sensors.alarmSearchAddress bus ⟨k, inside⟩
    obtain ⟨nota, readNota, zero⟩ :=
      read_complement false scan.sensors.alarmSearchAddress bus ⟨k, inside⟩
    have walksHere : AlarmWalks bus s start (⟨k, inside⟩ : Fin 64).val mark scan := walks
    obtain ⟨notBoth, address, next, later⟩ := alarmWalks_next walksHere one zero
    have step : alarmLoop Bus.wire (List.range' k (n + 1)) scan
        (searching false scan.sensors.alarmSearchAddress k bus) =
          alarmLoop Bus.wire (List.range' (k + 1) n)
            ((scan.take k a nota).2.note k (scan.take k a nota).1)
            (searching false
              ((scan.take k a nota).2.note k (scan.take k a nota).1).sensors.alarmSearchAddress
              (k + 1) bus) := by
      rw [address, ← write_direction _ _ _ ⟨k, inside⟩, List.range'_succ]
      simp only [alarmLoop, readA, readNota, notBoth]
      rfl
    rw [step]
    exact ih (by omega) later

end Loop

/-! One search. -/

section OneSearch
variable (bus : Bus) {s : Sensors}

theorem alarmLoop_nobody (nobody : members false bus = ∅) (s : Sensors) :
    ∃ after, alarmLoop Bus.wire (List.range 64) ⟨-1, true, s⟩
        (searching false s.alarmSearchAddress 0 bus) = (false, ⟨-1, true, s⟩, after) ∧
      settled after = settled bus := by
  obtain ⟨readA, readNota⟩ := read_nobody false bus nobody s.alarmSearchAddress
  refine ⟨among false s.alarmSearchAddress 0 (.searchDirection 0) bus, ?_, settled_enter _ bus⟩
  rw [List.range_eq_range', List.range'_succ, alarmLoop]
  simp only [readA, readNota]
  rfl

/-- What a search makes of a line, if it is not exhausted. -/
theorem alarmSearch_cases (more : s.alarmSearchExhausted = false) {start : ℕ}
    (junction : s.alarmSearchJunction = (start : ℤ) - 1) :
    (members false bus = ∅ ∧ ∃ after, alarmSearch Bus.wire s bus = (none, s, after) ∧
        settled after = settled bus) ∨
    ∃ scan mark, AlarmWalks bus s start 64 mark scan ∧
      alarmSearch Bus.wire s bus = (some scan.sensors.alarmSearchAddress,
        { scan.sensors with alarmSearchExhausted := decide (mark = 0) },
        searching false scan.sensors.alarmSearchAddress 64 bus) := by
  have command : Bus.wire.write 0xEC (Bus.wire.reset bus).2 =
      searching false s.alarmSearchAddress 0 bus := search_command false _ bus
  rcases Set.eq_empty_or_nonempty (members false bus) with nobody | found
  · refine .inl ⟨nobody, ?_⟩
    rw [alarmSearch, if_neg (by simp [more])]
    by_cases present : (Bus.wire.reset bus).1
    · obtain ⟨after, result, unchanged⟩ := alarmLoop_nobody bus nobody s
      refine ⟨after, ?_, unchanged⟩
      simp only [if_pos present, command, result]
      rfl
    · exact ⟨(Bus.wire.reset bus).2, if_neg present, settled_enter _ bus⟩
  · obtain ⟨scan, mark, result, walks⟩ :=
      alarmLoop_walks (show 0 + 64 = 64 from rfl) (alarmWalks_start found junction)
    refine .inr ⟨scan, mark, walks, ?_⟩
    have exhausted : scan.sensors.alarmSearchExhausted = false := by
      rw [walks.frame]
      exact more
    rw [alarmSearch, if_neg (by simp [more])]
    rw [← List.range_eq_range'] at result
    simp only [if_pos (presence found), command, result, if_true, walks.notes.done, exhausted,
      Bool.or_false]

end OneSearch

/-! The calls since `resetAlarmSearch`. -/

/-- What the fields know after the `c`-th ROM code was found. -/
def AlarmReady (bus : Bus) (c : ℕ) (s : Sensors) : Prop :=
  match c with
  | 0 => s.alarmSearchExhausted = false ∧ s.alarmSearchJunction = -1
  | c + 1 => (roster false bus)[c]? = some s.alarmSearchAddress ∧
      ∃ mark : ℕ, s.alarmSearchJunction = (mark : ℤ) - 1 ∧
        LastPending (members false bus) (word s.alarmSearchAddress) mark ∧
        s.alarmSearchExhausted = decide (mark = 0)

theorem alarmReady_reset (bus : Bus) (s : Sensors) : AlarmReady bus 0 (resetAlarmSearch s) :=
  ⟨rfl, rfl⟩

section Calls
variable {bus : Bus} {c : ℕ} {s : Sensors}

theorem alarmReady_congr {other : Bus} (same : roster false bus = roster false other) :
    AlarmReady bus c s ↔ AlarmReady other c s := by
  unfold AlarmReady
  rw [members_eq, members_eq, same]

theorem alarmReady_junction (ready : AlarmReady bus c s) :
    ∃ start : ℕ, s.alarmSearchJunction = (start : ℤ) - 1 := by
  cases c with
  | zero => exact ⟨0, ready.2⟩
  | succ c =>
    obtain ⟨_, mark, junction, _⟩ := ready
    exact ⟨mark, junction⟩

/-- A search that devices answer finds the next ROM code of the roster, and the junction it notes is
the last split where it took the 0. -/
theorem alarmWalks_found (ready : AlarmReady bus c s) (more : s.alarmSearchExhausted = false)
    {start mark : ℕ} (junction : s.alarmSearchJunction = (start : ℤ) - 1) {scan : AlarmScan}
    (walks : AlarmWalks bus s start 64 mark scan) :
    (roster false bus)[c]? = some scan.sensors.alarmSearchAddress ∧
      scan.sensors.alarmSearchJunction = (mark : ℤ) - 1 := by
  have follows := walks.walking.follows
  cases c with
  | zero =>
    obtain rfl : start = 0 := by
      have none := ready.2
      omega
    refine ⟨first_rom follows, ?_⟩
    rcases walks.notes.after (Nat.zero_le _) with here | ⟨_, m, none, _⟩
    · exact here
    · exact absurd none (Nat.succ_ne_zero _)
  | succ c =>
    obtain ⟨current, before, same, marked, exhausted⟩ := ready
    obtain rfl : before = start := by omega
    have positive : 0 < before := by
      rw [more] at exhausted
      exact Nat.pos_of_ne_zero (of_decide_eq_false exhausted.symm)
    refine ⟨next_rom current marked positive follows, ?_⟩
    rcases walks.notes.after marked.inside with here | ⟨_, m, rfl, noSplit⟩
    · exact here
    · have member := mem_members.mpr (List.mem_of_getElem? (getElem?_word.mpr current))
      have agree := agree_of_resume member follows
      exact absurd ((splits_congr agree).mpr (marked.pending m rfl).1) noSplit

theorem alarmReady_last (ready : AlarmReady bus c s) (exhausted : s.alarmSearchExhausted = true) :
    (roster false bus).length = c := by
  cases c with
  | zero =>
    rw [ready.1] at exhausted
    cases exhausted
  | succ c =>
    obtain ⟨current, mark, _, marked, flag⟩ := ready
    rw [exhausted] at flag
    rw [of_decide_eq_true flag.symm] at marked
    exact last_rom current marked

/-- One call. -/
theorem alarmSearch_next (ready : AlarmReady bus c s) :
    (alarmSearch Bus.wire s bus).1 = (roster false bus)[c]? ∧
      AlarmReady bus (if c < (roster false bus).length then c + 1 else c)
        (alarmSearch Bus.wire s bus).2.1 ∧
      settled (alarmSearch Bus.wire s bus).2.2 = settled bus := by
  obtain ⟨start, junction⟩ := alarmReady_junction ready
  refine and_assoc.mp ⟨?_, Store.alarmSearch_settled s bus⟩
  cases more : s.alarmSearchExhausted with
  | true =>
    have length := alarmReady_last ready more
    rw [alarmSearch, if_pos more, if_neg (by omega), List.getElem?_eq_none (Nat.le_of_eq length)]
    exact ⟨rfl, ready⟩
  | false =>
    rcases alarmSearch_cases bus more junction with ⟨nobody, after, result, _⟩ | walked
    · have empty := roster_nil.mpr nobody
      rw [result, empty, List.length_nil, if_neg (Nat.not_lt_zero c)]
      exact ⟨rfl, ready⟩
    · obtain ⟨scan, mark, walks, result⟩ := walked
      obtain ⟨found, noted⟩ := alarmWalks_found ready more junction walks
      rw [result, found, if_pos (List.getElem?_eq_some_iff.mp found).1]
      exact ⟨rfl, found, mark, noted, walks.walking.lastPending, rfl⟩

/-- The fields before call `n`, when call `m` finds the line as in `bus m`. -/
def alarmSearches (bus : ℕ → Bus) (s : Sensors) : ℕ → Sensors
  | 0 => s
  | n + 1 => (alarmSearch Bus.wire (alarmSearches bus s n) (bus n)).2.1

/-- The calls since `resetAlarmSearch` find the ROM codes of the devices with an alarm from the
first to the last, and nothing any more from then on. The devices may do anything else between two
calls. -/
theorem alarmSearch_enumerates {bus : ℕ → Bus}
    (same : ∀ n, roster false (bus n) = roster false (bus 0)) (s : Sensors) (n : ℕ) :
    (alarmSearch Bus.wire (alarmSearches bus (resetAlarmSearch s) n) (bus n)).1 =
      (roster false (bus 0))[n]? := by
  have readyAt : ∀ n, AlarmReady (bus n) (min n (roster false (bus 0)).length)
      (alarmSearches bus (resetAlarmSearch s) n) := by
    intro n
    induction n with
    | zero =>
      rw [Nat.zero_min]
      exact alarmReady_reset (bus 0) s
    | succ n ih =>
      have next := (alarmSearch_next ih).2.1
      rw [alarmReady_congr ((same n).trans (same (n + 1)).symm), same n] at next
      have place : (if min n (roster false (bus 0)).length < (roster false (bus 0)).length
          then min n (roster false (bus 0)).length + 1 else min n (roster false (bus 0)).length) =
          min (n + 1) (roster false (bus 0)).length := by
        split_ifs <;> omega
      rwa [place] at next
  rw [(alarmSearch_next (readyAt n)).1, same]
  by_cases more : n < (roster false (bus 0)).length
  · rw [Nat.min_eq_left (Nat.le_of_lt more)]
  · rw [Nat.min_eq_right (not_lt.mp more), List.getElem?_eq_none (Nat.le_refl _),
      List.getElem?_eq_none (not_lt.mp more)]

theorem alarmSearch_enumerates_twoProbes :
    (alarmSearch Bus.wire (alarmSearches (fun _ => twoProbes) (resetAlarmSearch setOneWire) 5)
      twoProbes).1 = none := by
  have same : ∀ n : ℕ, roster false ((fun _ => twoProbes) n) =
      roster false ((fun _ => twoProbes) 0) := fun _ => rfl
  exact (alarmSearch_enumerates same setOneWire 5).trans (by decide)

end Calls

/-! Which devices the handler is called for. -/

/-- From the `c`-th ROM code on. -/
theorem processAlarmsLoop_eq (extra : ℕ) {bus : Bus} {n c : ℕ}
    (left : (roster false bus).length = c + n) {line : Bus} (same : settled line = settled bus)
    {s : Sensors} (ready : AlarmReady bus c s) :
    let processed := processAlarmsLoop Bus.wire (n + 1 + extra) s line
    processed.1 = ((roster false bus).drop c).filter (fun rom => validAddress rom) ∧
      settled processed.2.2 = settled bus := by
  induction n generalizing c line s with
  | zero =>
    obtain ⟨found, _, unchanged⟩ :=
      alarmSearch_next ((alarmReady_congr (roster_congr same false)).mpr ready)
    have all : (roster false bus).length ≤ c := Nat.le_of_eq left
    rw [roster_congr same, List.getElem?_eq_none all] at found
    rw [List.drop_of_length_le all, Nat.zero_add, Nat.add_comm 1 extra,
      processAlarmsLoop]
    simp only [found]
    exact ⟨rfl, unchanged.trans same⟩
  | succ n ih =>
    have inside : c < (roster false bus).length := by omega
    obtain ⟨found, next, unchanged⟩ :=
      alarmSearch_next ((alarmReady_congr (roster_congr same false)).mpr ready)
    rw [roster_congr same, List.getElem?_eq_getElem inside] at found
    rw [roster_congr same, if_pos inside, alarmReady_congr (roster_congr same false)] at next
    obtain ⟨rest, settled_⟩ := ih (by omega) (unchanged.trans same) next
    rw [List.drop_eq_getElem_cons inside, List.filter_cons, Nat.add_right_comm (n + 1) 1 extra,
      processAlarmsLoop]
    simp only [found]
    refine ⟨?_, settled_⟩
    rw [← rest]

theorem roster_length_le (searchMode : Bool) (bus : Bus) :
    (roster searchMode bus).length ≤ bus.devices.length := by
  rw [roster, List.length_insertionSort, List.length_map]
  exact List.length_filter_le _ _

/-- Any number of turns will do that takes the loop past the last alarm. -/
theorem processAlarms_enough (s : Sensors) {bus : Bus} {count : ℕ}
    (enough : (roster false bus).length ≤ count) :
    let processed := processAlarms Bus.wire (count + 1) s bus
    processed.1 = (roster false bus).filter (fun rom => validAddress rom) ∧
      settled processed.2.2 = settled bus := by
  obtain ⟨more, rfl⟩ := Nat.exists_eq_add_of_le enough
  have whole := processAlarmsLoop_eq more (Nat.zero_add _).symm (rfl : settled bus = _)
    (alarmReady_reset bus s)
  rw [Nat.add_right_comm] at whole
  exact whole

/-- The handler is called for the devices with an alarm and a right check sum, once for each, in the
order of their ROM codes. -/
theorem processAlarms_eq (extra : ℕ) (s : Sensors) (bus : Bus) :
    let processed := processAlarms Bus.wire (bus.devices.length + 1 + extra) s bus
    processed.1 = (roster false bus).filter (fun rom => validAddress rom) ∧
      settled processed.2.2 = settled bus := by
  rw [Nat.add_right_comm]
  exact processAlarms_enough s (Nat.le_add_right_of_le (roster_length_le false bus))

/-- The degrees that `hasAlarm` compares are the device's. -/
theorem alarm_degrees (high low : Byte) :
    (((high ++ low : BitVec 16) <<< 3).sshiftRight 7).setWidth 8 =
      (((high ++ low : BitVec 16) >>> 4).setWidth 8 : Byte) := by
  apply BitVec.eq_of_getLsbD_eq
  intro i inside
  have fits : 7 + i < 16 := by omega
  have low : ¬7 + i < 3 := by omega
  simp only [BitVec.getLsbD_setWidth, BitVec.getLsbD_sshiftRight, BitVec.getLsbD_ushiftRight,
    BitVec.getLsbD_shiftLeft, inside, fits, low, decide_true, decide_false, Bool.true_and,
    Bool.not_false, if_true]
  rw [show 7 + i - 3 = 4 + i by omega]
  simp only [show ¬16 ≤ i by omega, decide_false, Bool.not_false, Bool.true_and]

/-- After its conversion the library has the same opinion as the device. -/
theorem hasAlarm_measured {s : Sensors} {bus : Bus} {d : Device} (member : d ∈ bus.devices)
    (family : d.rom.get 0 ≠ 0x10) (finishes : Finishes s d) :
    (hasAlarm Bus.wire d.rom (requestTemperatures Bus.wire s bus).2).1 =
      some (requested s d).alarm := by
  rw [hasAlarm, (lookUp_eq _ _ d.rom (requestTemperatures Bus.wire s bus).2).1, find_requested,
    find_eq member, Option.map_some, Option.elim_some, requested_finished finishes]
  simp only [calculateTemperature, if_neg family, append_shift, alarm_degrees, Option.map_some,
    get_padOf _ (show 0 < 8 by decide), get_padOf _ (show 1 < 8 by decide),
    get_padOf _ (show 2 < 8 by decide), get_padOf _ (show 3 < 8 by decide),
    Device.endConversion, Device.alarmCondition]

/-- After a request that waits for every conversion the handler is called for exactly the devices
of which `hasAlarm` says so, in the order of their ROM codes. -/
theorem processAlarms_agrees (extra : ℕ) {s : Sensors} {bus : Bus}
    (family : ∀ d ∈ bus.devices, d.rom.get 0 ≠ 0x10)
    (finishes : ∀ d ∈ bus.devices, Finishes s d) :
    let measured := (requestTemperatures Bus.wire s bus).2
    (processAlarms Bus.wire (bus.devices.length + 1 + extra) s measured).1 =
      (roster true bus).filter fun rom =>
        validAddress rom && decide ((hasAlarm Bus.wire rom measured).1 = some true) := by
  intro measured
  have after : measured = bus.update (requested s) (requested_rom s) := requestTemperatures_eq s bus
  have size : bus.devices.length = measured.devices.length := by
    rw [after]
    exact (List.length_map _).symm
  have alarmed : ∀ rom, rom ∈ roster false measured ↔ rom ∈ (roster true bus).filter fun rom =>
      decide ((hasAlarm Bus.wire rom measured).1 = some true) := by
    intro rom
    rw [List.mem_filter, mem_roster, mem_roster, after, decide_eq_true_eq]
    constructor
    · rintro ⟨_, inMeasured, answers, rfl⟩
      obtain ⟨d, member, rfl⟩ := List.mem_map.mp inMeasured
      refine ⟨⟨d, member, Bool.true_or _, (requested_rom s d).symm⟩, ?_⟩
      rw [← after, requested_rom, hasAlarm_measured member (family d member) (finishes d member)]
      exact congrArg some answers
    · rintro ⟨⟨d, member, _, rfl⟩, alarm⟩
      rw [← after, hasAlarm_measured member (family d member) (finishes d member)] at alarm
      exact ⟨_, List.mem_map_of_mem member, Option.some.inj alarm, requested_rom s d⟩
  have sameRoms : roster false measured = (roster true bus).filter fun rom =>
      decide ((hasAlarm Bus.wire rom measured).1 = some true) := by
    apply List.map_injective_iff.mpr word_injective
    refine (roster_sorted false measured).eq_of_mem_iff ?_ fun x => ?_
    · exact (roster_sorted true bus).sublist (List.filter_sublist.map word)
    · simp only [List.mem_map, alarmed]
  have enough : (roster false measured).length ≤ bus.devices.length + extra := by
    rw [size]
    exact Nat.le_add_right_of_le (roster_length_le false measured)
  rw [Nat.add_right_comm, (processAlarms_enough s enough).1, sameRoms, List.filter_filter]

theorem processAlarms_agrees_twoProbes :
    let s := { setOneWire with bitResolution := 12 }
    let measured := (requestTemperatures Bus.wire s twoProbes).2
    (processAlarms Bus.wire (twoProbes.devices.length + 1 + 0) s measured).1 =
      (roster true twoProbes).filter fun rom =>
        validAddress rom && decide ((hasAlarm Bus.wire rom measured).1 = some true) := by
  have family : ∀ d ∈ twoProbes.devices, d.rom.get 0 ≠ 0x10 := by decide
  have finishes : ∀ d ∈ twoProbes.devices,
      Finishes { setOneWire with bitResolution := 12 } d := by decide
  exact processAlarms_agrees 0 family finishes

end ArduMash.Dallas.Alarms
