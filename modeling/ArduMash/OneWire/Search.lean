import ArduMash.OneWire.Line

/-!
The ROM search of the OneWire library, with the search state that lives in the
`OneWire` object from one call to the next.
-/

namespace ArduMash.OneWire.Search
open Line

structure SearchState where
  romNo : Address
  lastDiscrepancy : ℕ
  lastFamilyDiscrepancy : ℕ
  lastDeviceFlag : Bool
  deriving DecidableEq

def resetSearch : SearchState where
  romNo := ⟨fun _ => 0⟩
  lastDiscrepancy := 0
  lastFamilyDiscrepancy := 0
  lastDeviceFlag := false

def targetSearch (familyCode : Byte) : SearchState where
  romNo := ⟨fun i => if i.val = 0 then familyCode else 0⟩
  lastDiscrepancy := 64
  lastFamilyDiscrepancy := 0
  lastDeviceFlag := false

/-- The counters are reset, so that the next search is like a first one. -/
def SearchState.restart (s : SearchState) : SearchState :=
  { s with lastDiscrepancy := 0, lastDeviceFlag := false, lastFamilyDiscrepancy := 0 }

/-- The variables of the loop. -/
structure Scan where
  idBitNumber : ℕ
  lastZero : ℕ
  romByteNumber : ℕ
  romByteMask : Byte
  search : SearchState

def searchDirection (scan : Scan) (idBit cmpIdBit : Bool) : Bool :=
  if idBit ≠ cmpIdBit then idBit
  else if scan.idBitNumber < scan.search.lastDiscrepancy then
    decide (scan.search.romNo.get scan.romByteNumber &&& scan.romByteMask > 0)
  else decide (scan.idBitNumber = scan.search.lastDiscrepancy)

/-- What the loop notes of one bit of the ROM, when a device has answered. -/
def Scan.next (scan : Scan) (idBit cmpIdBit : Bool) : Scan :=
  let direction := searchDirection scan idBit cmpIdBit
  let zeroPicked := idBit = cmpIdBit ∧ direction = false
  let lastZero := if zeroPicked then scan.idBitNumber else scan.lastZero
  let mask := scan.romByteMask
  { idBitNumber := scan.idBitNumber + 1
    lastZero := lastZero
    romByteNumber := if mask <<< 1 = 0 then scan.romByteNumber + 1 else scan.romByteNumber
    romByteMask := if mask <<< 1 = 0 then 1 else mask <<< 1
    search :=
      { scan.search with
        romNo := scan.search.romNo.modify scan.romByteNumber
          (fun byte => if direction then byte ||| mask else byte &&& ~~~mask)
        lastFamilyDiscrepancy :=
          if zeroPicked ∧ lastZero < 9 then lastZero else scan.search.lastFamilyDiscrepancy } }

section Search
variable {σ : Type} (wire : Wire σ)

/-- One round of the loop, and whether the loop goes on; it breaks off where no device answers. -/
def scanBit (scan : Scan) (bus : σ) : Bool × Scan × σ :=
  let idBit := wire.readBit bus
  let cmpIdBit := wire.readBit idBit.2
  if idBit.1 && cmpIdBit.1 then (false, scan, cmpIdBit.2)
  else
    let next := scan.next idBit.1 cmpIdBit.1
    (decide (next.romByteNumber < 8), next,
      wire.writeBit (searchDirection scan idBit.1 cmpIdBit.1) cmpIdBit.2)

/-- The loop leaves by itself after 64 rounds at the latest. -/
def scanLoop : ℕ → Scan → σ → Scan × σ
  | 0, scan, bus => (scan, bus)
  | fuel + 1, scan, bus =>
    let round := scanBit wire scan bus
    if round.1 then scanLoop fuel round.2.1 round.2.2 else round.2

/-- The address is copied to `newAddr` if the search returns `TRUE`. -/
structure Found (σ : Type) where
  newAddr : Option Address
  search : SearchState
  bus : σ

/-- After the loop. -/
def conclude (scan : Scan) (bus : σ) : Found σ :=
  if scan.idBitNumber < 65 then ⟨none, scan.search.restart, bus⟩
  else
    let s := { scan.search with
      lastDiscrepancy := scan.lastZero
      lastDeviceFlag := decide (scan.lastZero = 0) || scan.search.lastDeviceFlag }
    if s.romNo.get 0 = 0 then ⟨none, s.restart, bus⟩ else ⟨some s.romNo, s, bus⟩

/-- `searchMode` is `true` for all devices, `false` for those with an alarm. -/
def search (searchMode : Bool) (s : SearchState) (bus : σ) : Found σ :=
  if s.lastDeviceFlag then ⟨none, s.restart, bus⟩
  else
    let presence := wire.reset bus
    if presence.1 then
      let scanned := scanLoop wire 64 ⟨1, 0, 0, 1, s⟩
        (wire.write (if searchMode then 0xF0 else 0xEC) presence.2)
      conclude scanned.1 scanned.2
    else ⟨none, s.restart, presence.2⟩

end Search

end ArduMash.OneWire.Search
