import ArduMash.OneWire.Crc
import ArduMash.OneWire.Search
import ArduMash.Foundation.WrappingClock
import ArduMash.Sketch.Hardware

/-!
The DallasTemperature library on a line. The power that `write` leaves on the line is
not modelled, and neither are the pauses after a scratch pad is written.
-/

namespace ArduMash.Dallas.Library
open OneWire.Line OneWire.Crc OneWire.Search
open Foundation.WrappingClock (shown)
open Sketch.Globals (Millis)
open Sketch.Hardware (deviceDisconnectedRaw deviceDisconnectedC rawToCelsius)

/-- The fields of `DallasTemperature`; of the `OneWire` object the state of its search. -/
structure Sensors where
  parasite : Bool
  bitResolution : Byte
  waitForConversion : Bool
  checkForConversion : Bool
  devices : Byte
  oneWire : SearchState
  alarmSearchAddress : Address
  alarmSearchJunction : ℤ
  alarmSearchExhausted : Bool
  deriving DecidableEq

/-- The global object of the sketch, whose alarm fields are zeroed. -/
def setOneWire : Sensors where
  parasite := false
  bitResolution := 9
  waitForConversion := true
  checkForConversion := true
  devices := 0
  oneWire := resetSearch
  alarmSearchAddress := ⟨fun _ => 0⟩
  alarmSearchJunction := 0
  alarmSearchExhausted := false

abbrev ScratchPad := Octets 9

def validFamily (deviceAddress : Address) : Bool :=
  deviceAddress.get 0 ∈ [0x10, 0x28, 0x22, 0x3B]

def validAddress (deviceAddress : Address) : Bool :=
  decide (crc8 (deviceAddress.toList.take 7) = deviceAddress.get 7)

def millisToWaitForConversion (bitResolution : Byte) : ℕ :=
  if bitResolution = 9 then 94
  else if bitResolution = 10 then 188
  else if bitResolution = 11 then 375
  else 750

/-- `TEMP_9_BIT` to `TEMP_12_BIT`. -/
def configuration (newResolution : Byte) : Byte :=
  if newResolution = 12 then 0x7F
  else if newResolution = 11 then 0x5F
  else if newResolution = 10 then 0x3F
  else 0x1F

def resolutionOf (configuration : Byte) : Byte :=
  if configuration = 0x7F then 12
  else if configuration = 0x5F then 11
  else if configuration = 0x3F then 10
  else if configuration = 0x1F then 9
  else 0

/-- `none` is a division by zero. -/
def calculateTemperature (deviceAddress : Address) (scratchPad : ScratchPad) :
    Option (BitVec 16) :=
  let fpTemperature : BitVec 16 :=
    (scratchPad.get 1).setWidth 16 <<< 11 ||| (scratchPad.get 0).setWidth 16 <<< 3
  if deviceAddress.get 0 = 0x10 then
    let countRemain : ℤ := (scratchPad.get 6).toNat
    let countPerC : ℤ := (scratchPad.get 7).toNat
    if countPerC = 0 then none
    else some (((fpTemperature &&& (0xfff0 : BitVec 16)) <<< 3) - 16 +
      BitVec.ofInt 16 (((countPerC - countRemain) * 128).tdiv countPerC))
  else some fpTemperature

section Wire
variable {σ : Type} (wire : Wire σ)

/-! One device. -/

/-- What is returned, and the array. -/
def readScratchPad (deviceAddress : Address) (scratchPad : ScratchPad) (bus : σ) :
    Bool × ScratchPad × σ :=
  let presence := wire.reset bus
  if presence.1 then
    let bytes := wire.readBytes 9 (wire.write 0xBE (wire.select deviceAddress presence.2))
    let again := wire.reset bytes.2
    (again.1, .ofList bytes.1, again.2)
  else (false, scratchPad, presence.2)

/-- The scratch pad, if the function returns `true`; else no caller looks at it. -/
def isConnected (deviceAddress : Address) (bus : σ) : Option ScratchPad × σ :=
  let pad := readScratchPad wire deviceAddress ⟨fun _ => 0⟩ bus
  (if pad.1 ∧ crc8 (pad.2.1.toList.take 8) = pad.2.1.get 8 then some pad.2.1 else none, pad.2.2)

def writeScratchPad (deviceAddress : Address) (scratchPad : ScratchPad) (bus : σ) : σ :=
  let bus := wire.write 0x4E (wire.select deviceAddress (wire.reset bus).2)
  let bus := wire.write (scratchPad.get 3) (wire.write (scratchPad.get 2) bus)
  let bus := if deviceAddress.get 0 ≠ 0x10 then wire.write (scratchPad.get 4) bus else bus
  -- the ROM code is sent twice before the command to copy
  let bus := wire.select deviceAddress (wire.reset bus).2
  let bus := wire.write 0x48 (wire.select deviceAddress bus)
  (wire.reset bus).2

def readPowerSupply (deviceAddress : Address) (bus : σ) : Bool × σ :=
  let answer := wire.readBit (wire.write 0xB4 (wire.select deviceAddress (wire.reset bus).2))
  (!answer.1, (wire.reset answer.2).2)

/-- What the functions compute that look something up in the scratch pad. -/
def lookUp {α : Type} (otherwise : α) (look : ScratchPad → α) (deviceAddress : Address)
    (bus : σ) : α × σ :=
  let connected := isConnected wire deviceAddress bus
  (connected.1.elim otherwise look, connected.2)

def getResolution (deviceAddress : Address) (bus : σ) : Byte × σ :=
  if deviceAddress.get 0 = 0x10 then (12, bus)
  else lookUp wire 0 (fun scratchPad => resolutionOf (scratchPad.get 4)) deviceAddress bus

/-- `none` is a division by zero. -/
def getTemp (deviceAddress : Address) (bus : σ) : Option (BitVec 16) × σ :=
  lookUp wire (some deviceDisconnectedRaw) (calculateTemperature deviceAddress) deviceAddress bus

def getTempC (deviceAddress : Address) (bus : σ) : Option ℚ × σ :=
  let raw := getTemp wire deviceAddress bus
  (raw.1.map rawToCelsius, raw.2)

def getUserData (deviceAddress : Address) (bus : σ) : BitVec 16 × σ :=
  lookUp wire 0
    (fun scratchPad => (scratchPad.get 2).setWidth 16 <<< 8 + (scratchPad.get 3).setWidth 16)
    deviceAddress bus

/-- `DEVICE_DISCONNECTED_C` is -127 as a `char` too. -/
def getHighAlarmTemp (deviceAddress : Address) (bus : σ) : Byte × σ :=
  lookUp wire (-127) (fun scratchPad => scratchPad.get 2) deviceAddress bus

def getLowAlarmTemp (deviceAddress : Address) (bus : σ) : Byte × σ :=
  lookUp wire (-127) (fun scratchPad => scratchPad.get 3) deviceAddress bus

/-- What the functions do that change something in the scratch pad. -/
def amend (edit : ScratchPad → ScratchPad) (deviceAddress : Address) (bus : σ) : Bool × σ :=
  let connected := isConnected wire deviceAddress bus
  match connected.1 with
  | some scratchPad => (true, writeScratchPad wire deviceAddress (edit scratchPad) connected.2)
  | none => (false, connected.2)

def setResolution (deviceAddress : Address) (newResolution : Byte) (bus : σ) : Bool × σ :=
  if deviceAddress.get 0 = 0x10 then
    let connected := isConnected wire deviceAddress bus
    (connected.1.isSome, connected.2)
  else
    amend wire (fun scratchPad => scratchPad.modify 4 fun _ => configuration newResolution)
      deviceAddress bus

def setUserData (deviceAddress : Address) (data : BitVec 16) (bus : σ) : σ :=
  (amend wire
    (fun scratchPad =>
      (scratchPad.modify 2 fun _ => (data.sshiftRight 8).setWidth 8).modify 3 fun _ =>
        (data &&& 255).setWidth 8)
    deviceAddress bus).2

/-- The alarm temperature is kept within the device's range. -/
def alarmTemp (celsius : Byte) : Byte :=
  if (125 : Byte).slt celsius then 125 else if celsius.slt (-55) then -55 else celsius

def setHighAlarmTemp (deviceAddress : Address) (celsius : Byte) (bus : σ) : σ :=
  (amend wire (fun scratchPad => scratchPad.modify 2 fun _ => alarmTemp celsius)
    deviceAddress bus).2

def setLowAlarmTemp (deviceAddress : Address) (celsius : Byte) (bus : σ) : σ :=
  (amend wire (fun scratchPad => scratchPad.modify 3 fun _ => alarmTemp celsius)
    deviceAddress bus).2

/-! All devices. The loops over them get `fuel`, as a line could answer without end. -/

/-- What `begin` does for one address. -/
def enlist (deviceAddress : Address) (s : Sensors) (bus : σ) : Sensors × σ :=
  let power := if s.parasite then (false, bus) else readPowerSupply wire deviceAddress bus
  let resolution := getResolution wire deviceAddress power.2
  -- `max` is a macro, and calls the function again for its value
  let larger :=
    if s.bitResolution > resolution.1 then (s.bitResolution, resolution.2)
    else getResolution wire deviceAddress resolution.2
  ({ s with
    parasite := s.parasite || power.1
    bitResolution := larger.1
    devices := s.devices + 1 }, larger.2)

def beginLoop : ℕ → Sensors → σ → Sensors × σ
  | 0, s, bus => (s, bus)
  | fuel + 1, s, bus =>
    let found := search wire true s.oneWire bus
    let searched := { s with oneWire := found.search }
    match found.newAddr with
    | none => (searched, found.bus)
    | some deviceAddress =>
      if validAddress deviceAddress then
        let enlisted := enlist wire deviceAddress searched found.bus
        beginLoop fuel enlisted.1 enlisted.2
      else beginLoop fuel searched found.bus

def begin (fuel : ℕ) (s : Sensors) (bus : σ) : Sensors × σ :=
  beginLoop wire fuel { s with oneWire := resetSearch, devices := 0 } bus

/-- What `getAddress` returns, and the array it has written. -/
structure Located (σ : Type) where
  result : Bool
  deviceAddress : Address
  sensors : Sensors
  bus : σ

def getAddressLoop (index : Byte) : ℕ → Byte → Address → Sensors → σ → Located σ
  | 0, _, deviceAddress, s, bus => ⟨false, deviceAddress, s, bus⟩
  | fuel + 1, depth, deviceAddress, s, bus =>
    if depth ≤ index then
      let found := search wire true s.oneWire bus
      let searched := { s with oneWire := found.search }
      match found.newAddr with
      | none => ⟨false, deviceAddress, searched, found.bus⟩
      | some newAddr =>
        if depth = index ∧ validAddress newAddr then ⟨true, newAddr, searched, found.bus⟩
        else getAddressLoop index fuel (depth + 1) newAddr searched found.bus
    else ⟨false, deviceAddress, s, bus⟩

def getAddress (fuel : ℕ) (deviceAddress : Address) (index : Byte) (s : Sensors) (bus : σ) :
    Located σ :=
  getAddressLoop wire index fuel 0 deviceAddress { s with oneWire := resetSearch } bus

/-- `constrain(newResolution, 9, 12)`. -/
def constrained (newResolution : Byte) : Byte :=
  if newResolution < 9 then 9 else if newResolution > 12 then 12 else newResolution

/-- `deviceAddress` is what the local array holds before it is written. -/
def setResolutionAll (fuel : ℕ) (newResolution : Byte) (deviceAddress : Address) (s : Sensors)
    (bus : σ) : Located σ :=
  (List.range s.devices.toNat).foldl
    (fun before i =>
      let located := getAddress wire fuel before.deviceAddress (BitVec.ofNat 8 i) before.sensors
        before.bus
      { located with
        bus := (setResolution wire located.deviceAddress (constrained newResolution)
          located.bus).2 })
    ⟨true, deviceAddress, { s with bitResolution := constrained newResolution }, bus⟩

/-! Waiting for a conversion. -/

/-- What the loop that asks a device depends on but for the line: the time at its start, how long it
takes to ask once, what the local arrays hold before they are written, and fuel. -/
structure Poll where
  start : ℕ
  look : ℕ
  scratchPad : ScratchPad
  fuel : ℕ

/-- Nobody looks at what `readScratchPad` returns. -/
def isConversionAvailable (deviceAddress : Address) (scratchPad : ScratchPad) (bus : σ) :
    Bool × σ :=
  let pad := readScratchPad wire deviceAddress scratchPad bus
  (pad.2.1.get 0 ≠ 0, pad.2.2)

/-- `elapsed` are the milliseconds since the start of the loop. -/
def pollLoop (deviceAddress : Address) (delms : ℕ) (poll : Poll) : ℕ → ℕ → σ → ℕ × σ
  | 0, elapsed, bus => (elapsed, bus)
  | fuel + 1, elapsed, bus =>
    let available := isConversionAvailable wire deviceAddress poll.scratchPad bus
    let elapsed := elapsed + poll.look
    let bus := wire.delay poll.look available.2
    let now : Millis := shown 32 poll.start
    if !available.1 ∧ shown 32 (poll.start + elapsed) - BitVec.ofNat 32 delms < now then
      pollLoop deviceAddress delms poll fuel elapsed bus
    else (elapsed, bus)

/-- The milliseconds it takes. Without a device to ask, `NULL` in the source, it is a pause. -/
def blockTillConversionComplete (bitResolution : Byte) (asked : Option (Address × Poll))
    (s : Sensors) (bus : σ) : ℕ × σ :=
  let delms := millisToWaitForConversion bitResolution
  match asked with
  | some (deviceAddress, poll) =>
    if s.checkForConversion ∧ !s.parasite then
      pollLoop wire deviceAddress delms poll poll.fuel 0 bus
    else (delms, wire.delay delms bus)
  | none => (delms, wire.delay delms bus)

/-- And the milliseconds it waits. -/
def requestTemperatures (s : Sensors) (bus : σ) : ℕ × σ :=
  let converting := wire.write 0x44 (wire.skip (wire.reset bus).2)
  if s.waitForConversion then
    blockTillConversionComplete wire s.bitResolution none s converting
  else (0, converting)

/-- Of one device. -/
def requestTemperaturesByAddress (deviceAddress : Address) (poll : Poll) (s : Sensors) (bus : σ) :
    Bool × σ :=
  let resolution := getResolution wire deviceAddress bus
  if resolution.1 = 0 then (false, resolution.2)
  else
    let presence := wire.reset resolution.2
    if presence.1 then
      let converting := wire.write 0x44 (wire.select deviceAddress presence.2)
      if s.waitForConversion then
        (true, (blockTillConversionComplete wire resolution.1 (some (deviceAddress, poll)) s
          converting).2)
      else (true, converting)
    else (false, presence.2)

/-- What the functions do that take an index and go on whether `getAddress` has found it or not.
`deviceAddress` is what the local array holds before it is written. -/
def byIndex {α : Type} (call : Address → σ → α) (fuel : ℕ) (deviceAddress : Address)
    (deviceIndex : Byte) (s : Sensors) (bus : σ) : α :=
  let located := getAddress wire fuel deviceAddress deviceIndex s bus
  call located.deviceAddress located.bus

def requestTemperaturesByIndex (fuel : ℕ) (deviceAddress : Address) (deviceIndex : Byte)
    (poll : Poll) (s : Sensors) (bus : σ) : Bool × σ :=
  byIndex wire (fun address => requestTemperaturesByAddress wire address poll s) fuel deviceAddress
    deviceIndex s bus

def getUserDataByIndex (fuel : ℕ) (deviceAddress : Address) (deviceIndex : Byte) (s : Sensors)
    (bus : σ) : BitVec 16 × σ :=
  byIndex wire (getUserData wire) fuel deviceAddress deviceIndex s bus

def setUserDataByIndex (fuel : ℕ) (deviceAddress : Address) (deviceIndex : Byte)
    (data : BitVec 16) (s : Sensors) (bus : σ) : σ :=
  byIndex wire (fun address => setUserData wire address data) fuel deviceAddress deviceIndex s bus

def getTempCByIndex (fuel : ℕ) (deviceAddress : Address) (deviceIndex : Byte) (s : Sensors)
    (bus : σ) : Option ℚ × σ :=
  let located := getAddress wire fuel deviceAddress deviceIndex s bus
  if located.result then getTempC wire located.deviceAddress located.bus
  else (some deviceDisconnectedC, located.bus)

/-! Alarms. -/

/-- The first seven bytes of the address are cleared. -/
def resetAlarmSearch (s : Sensors) : Sensors :=
  { s with
    alarmSearchJunction := -1
    alarmSearchExhausted := false
    alarmSearchAddress := ⟨fun i => if i.val < 7 then 0 else s.alarmSearchAddress.byte i⟩ }

/-- The variables of the loop. -/
structure AlarmScan where
  lastJunction : ℤ
  done : Bool
  sensors : Sensors

/-- The bit that is taken, and what is noted of it. -/
def AlarmScan.take (scan : AlarmScan) (i : ℕ) (a nota : Bool) : Bool × AlarmScan :=
  let s := scan.sensors
  if !a && !nota then
    if (i : ℤ) = s.alarmSearchJunction then
      (true, { scan with sensors := { s with alarmSearchJunction := scan.lastJunction } })
    else if (i : ℤ) < s.alarmSearchJunction then
      if s.alarmSearchAddress.get (i / 8) &&& (1 : Byte) <<< (i % 8) ≠ 0 then (true, scan)
      else (false, { scan with done := false, lastJunction := i })
    else
      (false, { scan with done := false, sensors := { s with alarmSearchJunction := i } })
  else (a, scan)

def AlarmScan.note (scan : AlarmScan) (i : ℕ) (a : Bool) : AlarmScan :=
  { scan with
    sensors :=
      { scan.sensors with
        alarmSearchAddress := scan.sensors.alarmSearchAddress.modify (i / 8) fun byte =>
          if a then byte ||| (1 : Byte) <<< (i % 8) else byte &&& ~~~((1 : Byte) <<< (i % 8)) } }

/-- It ends early, with `false`, where no device answers. -/
def alarmLoop : List ℕ → AlarmScan → σ → Bool × AlarmScan × σ
  | [], scan, bus => (true, scan, bus)
  | i :: rest, scan, bus =>
    let a := wire.readBit bus
    let nota := wire.readBit a.2
    if a.1 && nota.1 then (false, scan, nota.2)
    else
      let taken := scan.take i a.1 nota.1
      alarmLoop rest (taken.2.note i taken.1) (wire.writeBit taken.1 nota.2)

/-- The address is copied to `newAddr` if the search returns `true`. -/
def alarmSearch (s : Sensors) (bus : σ) : Option Address × Sensors × σ :=
  if s.alarmSearchExhausted then (none, s, bus)
  else
    let presence := wire.reset bus
    if presence.1 then
      let scanned := alarmLoop wire (List.range 64) ⟨-1, true, s⟩ (wire.write 0xEC presence.2)
      let after := scanned.2.1.sensors
      if scanned.1 then
        (some after.alarmSearchAddress,
          { after with alarmSearchExhausted := scanned.2.1.done || after.alarmSearchExhausted },
          scanned.2.2)
      else (none, after, scanned.2.2)
    else (none, s, presence.2)

/-- Of one device; `none` is a division by zero. -/
def hasAlarm (deviceAddress : Address) (bus : σ) : Option Bool × σ :=
  lookUp wire (some false)
    (fun scratchPad => (calculateTemperature deviceAddress scratchPad).map fun raw =>
      let temp : Byte := (raw.sshiftRight 7).setWidth 8
      temp.sle (scratchPad.get 3) || (scratchPad.get 2).sle temp)
    deviceAddress bus

/-- Of any device. -/
def hasAlarmAny (s : Sensors) (bus : σ) : Bool × Sensors × σ :=
  let found := alarmSearch wire (resetAlarmSearch s) bus
  (found.1.isSome, found.2)

/-- The addresses the handler is called with. -/
def processAlarmsLoop : ℕ → Sensors → σ → List Address × Sensors × σ
  | 0, s, bus => ([], s, bus)
  | fuel + 1, s, bus =>
    let found := alarmSearch wire s bus
    match found.1 with
    | none => ([], found.2)
    | some alarmAddr =>
      let rest := processAlarmsLoop fuel found.2.1 found.2.2
      (if validAddress alarmAddr then alarmAddr :: rest.1 else rest.1, rest.2)

def processAlarms (fuel : ℕ) (s : Sensors) (bus : σ) : List Address × Sensors × σ :=
  processAlarmsLoop wire fuel (resetAlarmSearch s) bus

end Wire

end ArduMash.Dallas.Library
