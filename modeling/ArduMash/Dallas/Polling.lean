import ArduMash.Dallas.Temperature

/-!
A request for one device. The library does not pause for its conversion but asks it
again and again, and takes a low byte of the temperature that is not 0 for the end.
The byte from before the conversion is as good.
-/

namespace ArduMash.Dallas.Polling
open OneWire.Line OneWire.Devices OneWire.Addressing Library Registers Temperature
open Foundation.WrappingClock

/-! The time of the loop. -/

section Clock
variable {look delms elapsed : ℕ} (start : ℕ)

/-- What `millis() - delms < now` says. -/
theorem goesOn_iff : (shown 32 (start + elapsed) - BitVec.ofNat 32 delms < shown 32 start) ↔
    (2 ^ 32 - delms % 2 ^ 32 + (start + elapsed) % 2 ^ 32) % 2 ^ 32 < start % 2 ^ 32 := by
  rw [BitVec.lt_def, BitVec.toNat_sub, shown, shown, BitVec.toNat_ofNat, BitVec.toNat_ofNat,
    BitVec.toNat_ofNat]

theorem left_of_goesOn (room : start % 2 ^ 32 + look ≤ 2 ^ 32) (before : elapsed < delms + look)
    (goesOn : shown 32 (start + elapsed) - BitVec.ofNat 32 delms < shown 32 start) :
    elapsed < delms := by
  rw [goesOn_iff start] at goesOn
  omega

theorem goesOn_of_left (late : delms ≤ start % 2 ^ 32) (left : elapsed < delms) :
    shown 32 (start + elapsed) - BitVec.ofNat 32 delms < shown 32 start := by
  rw [goesOn_iff]
  omega

end Clock

theorem millisToWait_range (bitResolution : Byte) :
    94 ≤ millisToWaitForConversion bitResolution ∧
      millisToWaitForConversion bitResolution ≤ 750 := by
  unfold millisToWaitForConversion
  split_ifs <;> decide

section Wire
variable {σ : Type} (wire : Wire σ)

/-- Every look takes its time, so the loop ends with the fuel there is or before. -/
theorem pollLoop_ends (deviceAddress : Address) {poll : Poll} {delms : ℕ}
    (positive : 0 < poll.look) (room : poll.start % 2 ^ 32 + poll.look ≤ 2 ^ 32) {fuel elapsed : ℕ}
    (left : elapsed < delms) (enough : delms ≤ elapsed + fuel) (more fuel' : ℕ) (bus : σ) :
    (pollLoop wire deviceAddress delms poll fuel elapsed bus).1 < delms + poll.look ∧
      pollLoop wire deviceAddress delms { poll with fuel := fuel' } (fuel + more) elapsed bus =
        pollLoop wire deviceAddress delms poll fuel elapsed bus := by
  induction fuel generalizing elapsed bus with
  | zero => omega
  | succ fuel ih =>
    rw [Nat.add_right_comm, pollLoop, pollLoop]
    split_ifs with goesOn
    · have again := left_of_goesOn poll.start room (by omega) goesOn.2
      exact ih again (by omega) _
    · exact ⟨by simp only; omega, rfl⟩

end Wire

/-- An answer every 12 milliseconds, and arrays of zeros. -/
def everyTwelve : Poll := ⟨1000, 12, ⟨fun _ => 0⟩, 750⟩

/-- The loop looks often enough, has fuel, and the clock is not about to roll over and has not just
done so. -/
structure Steady (poll : Poll) : Prop where
  positive : 0 < poll.look
  quick : poll.look < 94
  late : 750 ≤ poll.start % 2 ^ 32
  room : poll.start % 2 ^ 32 + poll.look ≤ 2 ^ 32
  enough : 750 ≤ poll.fuel

section Device
variable {rom : Address} {poll : Poll} {d : Device}

/-- The device at the address, but for its phase. -/
def HoldsAt (rom : Address) (d : Device) (bus : Bus) : Prop :=
  (find rom bus).map atRest = some (atRest d)

theorem holdsAt_settled {bus other : Bus} (same : settled other = settled bus)
    (holds : HoldsAt rom d bus) : HoldsAt rom d other := by
  rw [HoldsAt, ← find_settled, same, find_settled]
  exact holds

theorem holdsAt_update {bus : Bus} {f : Device → Device} (keeps : ∀ d, (f d).rom = d.rom)
    (forgets : ∀ d, atRest (f (atRest d)) = atRest (f d)) (holds : HoldsAt rom d bus) :
    HoldsAt rom (f d) (bus.update f keeps) := by
  obtain ⟨before, found, same⟩ := Option.map_eq_some_iff.mp holds
  rw [HoldsAt, find_update, found]
  change some (atRest (f before)) = _
  rw [← forgets, same, forgets]

theorem holdsAt_delay {bus : Bus} (ms : ℕ) (holds : HoldsAt rom d bus) :
    HoldsAt rom (d.pass ms) (Bus.wire.delay ms bus) :=
  holdsAt_update (Device.pass_rom ms) (pass_forgets ms) holds

theorem memory_of_holdsAt {bus : Bus} (holds : HoldsAt rom d bus) :
    (find rom bus).map Device.memory = some d.memory := by
  obtain ⟨before, found, same⟩ := Option.map_eq_some_iff.mp holds
  rw [found]
  exact congrArg (fun d => some d.memory) same

/-- What the next look finds, and how the device is after it. -/
theorem look_holdsAt (poll : Poll) {bus : Bus} (holds : HoldsAt rom d bus) :
    (isConversionAvailable Bus.wire rom poll.scratchPad bus).1 = decide (d.memory.get 0 ≠ 0) ∧
      HoldsAt rom (d.pass poll.look)
        (Bus.wire.delay poll.look (isConversionAvailable Bus.wire rom poll.scratchPad bus).2) := by
  obtain ⟨before, found, same⟩ := Option.map_eq_some_iff.mp holds
  have memory : (atRest before).memory = (atRest d).memory := congrArg Device.memory same
  constructor
  · rw [isConversionAvailable_eq poll.scratchPad found, show before.memory = d.memory from memory]
  · exact holdsAt_delay _ (holdsAt_settled (isConversionAvailable_settled _ _ bus) holds)

/-- A low byte of 0 keeps the loop going to the end of the conversion. -/
theorem pollLoop_waits (steady : Steady poll) (low : d.memory.get 0 = 0) {delms fuel elapsed : ℕ}
    (known : delms ≤ 750) (left : elapsed < delms) (enough : delms ≤ elapsed + fuel) {bus : Bus}
    (holds : HoldsAt rom { d with conversion := some (delms - elapsed) } bus) :
    HoldsAt rom d.endConversion
      (pollLoop Bus.wire rom delms poll fuel elapsed bus).2 := by
  induction fuel generalizing elapsed bus with
  | zero => omega
  | succ fuel ih =>
    have converting : ({ d with conversion := some (delms - elapsed) } : Device).conversion =
        some (delms - elapsed) := rfl
    obtain ⟨available, after⟩ := look_holdsAt poll holds
    have unavailable : (isConversionAvailable Bus.wire rom poll.scratchPad bus).1 = false :=
      available.trans (decide_eq_false fun other => other low)
    rw [pollLoop]
    rcases Nat.lt_or_ge (elapsed + poll.look) delms with more | past
    · have goesOn := goesOn_of_left poll.start (Nat.le_trans known steady.late) more
      rw [if_pos ⟨by rw [unavailable]; rfl, goesOn⟩]
      refine ih more (by have := steady.positive; omega) ?_
      rw [pass_more converting (by omega), Nat.sub_sub] at after
      exact after
    · rw [pass_done converting (by omega)] at after
      rw [if_neg fun goesOn => Nat.not_lt.mpr past
        (left_of_goesOn poll.start steady.room (by omega) goesOn.2)]
      exact after

/-- Any other low byte ends it at once. -/
theorem pollLoop_fooled (steady : Steady poll) (low : d.memory.get 0 ≠ 0) {delms fuel left : ℕ}
    (slow : 94 ≤ left) (some_ : 0 < fuel) {bus : Bus}
    (holds : HoldsAt rom { d with conversion := some left } bus) :
    HoldsAt rom { d with conversion := some (left - poll.look) }
      (pollLoop Bus.wire rom delms poll fuel 0 bus).2 := by
  obtain ⟨available, after⟩ := look_holdsAt poll holds
  have early := steady.quick
  have converting : ({ d with conversion := some left } : Device).conversion = some left := rfl
  rw [pass_more converting (by omega)] at after
  obtain ⟨fuel, rfl⟩ := Nat.exists_eq_add_of_lt some_
  rw [Nat.zero_add, pollLoop, if_neg]
  · exact after
  · rintro ⟨unavailable, _⟩
    rw [available, decide_eq_true low] at unavailable
    cases unavailable

end Device

/-! The reading. -/

/-- The library asks the device, and takes the low byte of the last temperature for a new one. -/
def Fooled (s : Sensors) (d : Device) : Prop :=
  (s.checkForConversion ∧ !s.parasite) ∧ d.memory.get 0 ≠ 0

instance (s : Sensors) (d : Device) : Decidable (Fooled s d) := inferInstanceAs (Decidable (_ ∧ _))

/-- What is read after a request for the device alone. -/
def measuredAlone (s : Sensors) (d : Device) : Octets 8 :=
  if Fooled s d then d.memory else d.sample

theorem blockTill_memory {poll : Poll} (steady : Steady poll) (s : Sensors) {rom : Address}
    {d : Device} {resolution : Byte}
    (time : d.conversionTime = millisToWaitForConversion resolution) {line : Bus}
    (started : HoldsAt rom d.startConversion line) :
    ∃ after, HoldsAt rom after
        (blockTillConversionComplete Bus.wire resolution (some (rom, poll)) s line).2 ∧
      after.memory = if Fooled s d then d.memory else d.converted := by
  obtain ⟨shortest, longest⟩ := millisToWait_range resolution
  have enough := steady.enough
  unfold blockTillConversionComplete
  dsimp only
  by_cases polls : s.checkForConversion ∧ !s.parasite
  · rw [if_pos polls]
    by_cases low : d.memory.get 0 = 0
    · rw [Device.startConversion, time, ← Nat.sub_zero (millisToWaitForConversion _)] at started
      refine ⟨_, pollLoop_waits steady low longest (by omega) (by omega) started, ?_⟩
      rw [if_neg fun both => both.2 low]
      rfl
    · have slow : 94 ≤ d.conversionTime := by omega
      refine ⟨_, pollLoop_fooled steady low slow (by omega) started, ?_⟩
      rw [if_pos ⟨polls, low⟩]
  · rw [if_neg polls]
    have done := holdsAt_delay (millisToWaitForConversion resolution) started
    have converting : d.startConversion.conversion = some d.conversionTime := rfl
    rw [pass_done converting (Nat.le_of_eq time)] at done
    refine ⟨_, done, ?_⟩
    rw [if_neg fun both => polls both.1]
    rfl

theorem request_memory {s : Sensors} (waits : s.waitForConversion = true) {poll : Poll}
    (steady : Steady poll) {bus : Bus} {d : Device} (member : d ∈ bus.devices)
    (family : d.rom.get 0 ≠ 0x10) (reads : resolutionOf (d.memory.get 4) ≠ 0) :
    ∃ after, HoldsAt d.rom after
        (requestTemperaturesByAddress Bus.wire d.rom poll s bus).2 ∧
      after.memory = if Fooled s d then d.memory else d.converted := by
  have resolution : (getResolution Bus.wire d.rom bus).1 = resolutionOf (d.memory.get 4) := by
    rw [(getResolution_eq d.rom bus).1, if_neg family, find_eq member]
    rfl
  have cases_ := requestTemperaturesByAddress_cases d.rom poll s bus
  generalize requestTemperaturesByAddress Bus.wire d.rom poll s bus = result at cases_ ⊢
  cases cases_ with
  | refused _ _ nobody =>
    rcases nobody with unread | none_
    · exact absurd (resolution.symm.trans unread) reads
    · rw [none_] at member
      cases member
  | started line same =>
    have begun : find d.rom (startedAt d.rom bus) = some d.startConversion := by
      rw [startedAt, find_update, find_eq member]
      exact congrArg some (if_pos rfl)
    have started : HoldsAt d.rom d.startConversion line := by
      refine holdsAt_settled same ?_
      rw [HoldsAt, begun]
      rfl
    rw [if_pos waits, resolution]
    exact blockTill_memory steady s (conversionTime_eq d (by rw [if_neg family]) reads) started

/-- The device at another address stays as it is, if it does not convert. -/
theorem request_others {s : Sensors} {poll : Poll} {bus : Bus} {asked other : Address}
    (different : other ≠ asked)
    (idle : ∀ d ∈ bus.devices, d.rom = other → d.conversion = none) :
    (find other (requestTemperaturesByAddress Bus.wire asked poll s bus).2).map atRest =
      (find other bus).map atRest := by
  cases found : find other bus with
  | none =>
    have absent : find other (requestTemperaturesByAddress Bus.wire asked poll s bus).2 = none := by
      apply request_keeps fun line => find other line = none
      · intro before after same nobody
        have settled_ := find_settled other after
        rw [same, find_settled, nobody] at settled_
        exact Option.map_eq_none_iff.mp settled_.symm
      · intro ms line nobody
        exact (find_update (Device.pass_rom ms)).trans (congrArg _ nobody)
      · intro line nobody
        rw [startedAt, find_update, nobody]
        rfl
      · exact found
    rw [absent]
  | some d =>
    obtain ⟨member, here⟩ := find_rom found
    apply request_keeps (HoldsAt other d)
    · exact fun same holds => holdsAt_settled same holds
    · intro ms line holds
      have passed := holdsAt_delay ms holds
      rwa [pass_idle (idle d member here)] at passed
    · intro line holds
      have started := holdsAt_update (inPlace_rom fun _ => rfl)
        (f := inPlace asked Device.startConversion) (inPlace_forgets fun _ => rfl) holds
      rwa [show inPlace asked Device.startConversion d = d from
        if_neg fun same => different (here.symm.trans same)] at started
    · rw [HoldsAt, found]
      rfl

theorem everyTwelve_steady : Steady everyTwelve :=
  ⟨by decide, by decide, by decide, by decide, by decide⟩

end ArduMash.Dallas.Polling
