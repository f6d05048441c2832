import ArduMash.Foundation.CellMemory
import ArduMash.Sketch.Globals

/-!
The DB library: a table of records of one size in the EEPROM, behind a head with
their number. The EEPROM is a memory of bytes. `malloc` always finds room; what it
hands out is a parameter.
-/

namespace ArduMash.Database.Library
open Sketch.Globals (Byte)
open Foundation.CellMemory

/-- The fields of `DB`. -/
structure DB where
  nRecs : Byte
  recSize : Byte
  error : Byte
  headPtr : ℕ
  tblPtr : ℕ
  deriving DecidableEq

/-- The global object of the sketch. -/
def db : DB := ⟨0, 0, 0, 0, 0⟩

/-- The bytes a `DB_Rec` points to. -/
abbrev DBRec := ℕ → Byte

/-- `DB_OK`. -/
def dbOk : Byte := 0

/-- `DB_RECNO_OUT_OF_RANGE`. -/
def recnoOutOfRange : Byte := 1

/-- `DB_HEAD_SIZE`. -/
def headSize : ℕ := 4

namespace DB

section EEPROM
variable {σ : Type} (eeprom : Memory σ Byte)

def writeHead (db : DB) (m : σ) : σ :=
  eeprom.write (db.headPtr + 1) db.recSize (eeprom.write db.headPtr db.nRecs m)

def readHead (db : DB) (m : σ) : DB :=
  { db with nRecs := eeprom.read db.headPtr m, recSize := eeprom.read (db.headPtr + 1) m }

def dbWrite (db : DB) (ee : ℕ) (p : DBRec) (m : σ) : σ := eeprom.fill ee p db.recSize.toNat m

def dbRead (db : DB) (ee : ℕ) (p : DBRec) (m : σ) : DBRec :=
  fun i => if i < db.recSize.toNat then eeprom.read (ee + i) m else p i

def create (headPtr : ℕ) (recsize : Byte) (db : DB) (m : σ) : DB × σ :=
  let created := { db with headPtr := headPtr, nRecs := 0, recSize := recsize }
  (created, writeHead eeprom created m)

/-- `open`. -/
def openTable (headPtr : ℕ) (db : DB) (m : σ) : DB :=
  readHead eeprom { db with headPtr := headPtr, tblPtr := headPtr + headSize } m

/-- With a record number from 1 on. -/
def recordPtr (db : DB) (recno : Byte) : ℕ := db.tblPtr + (recno.toNat - 1) * db.recSize.toNat

def write (recno : Byte) (rec : DBRec) (db : DB) (m : σ) : Bool × DB × σ :=
  if recno.toNat > 0 ∧ recno.toNat ≤ db.nRecs.toNat + 1 then
    (true, { db with error := dbOk }, dbWrite eeprom db (recordPtr db recno) rec m)
  else (false, { db with error := recnoOutOfRange }, m)

/-- And the bytes of `rec`. -/
def read (recno : Byte) (rec : DBRec) (db : DB) (m : σ) : Bool × DB × DBRec :=
  if recno.toNat > 0 ∧ recno ≤ db.nRecs then
    (true, { db with error := dbOk }, dbRead eeprom db (recordPtr db recno) rec m)
  else (false, { db with error := recnoOutOfRange }, rec)

/-- The variables of the loops that move records. -/
structure Moving (σ : Type) where
  db : DB
  buf : DBRec
  m : σ

/-- One round: `read(source, buf)` and `write(target, buf)`. -/
def moveRec (source target : ℕ) (s : Moving σ) : Moving σ :=
  let got := read eeprom (BitVec.ofNat 8 source) s.buf s.db s.m
  let put := write eeprom (BitVec.ofNat 8 target) got.2.2 got.2.1 s.m
  ⟨put.2.1, got.2.2, put.2.2⟩

/-- `buffer` is what `malloc` hands out. -/
def deleteRec (recno : Byte) (buffer : DBRec) (db : DB) (m : σ) : Bool × DB × σ :=
  if recno > db.nRecs then (false, { db with error := recnoOutOfRange }, m)
  else
    -- `i` from `recno + 1` to `n_recs`
    let moved := (List.range' (recno.toNat + 1) (db.nRecs.toNat - recno.toNat)).foldl
      (fun s i => moveRec eeprom i (i - 1) s) ⟨{ db with error := dbOk }, buffer, m⟩
    let counted := { moved.db with nRecs := moved.db.nRecs - 1 }
    (true, counted, eeprom.write counted.headPtr counted.nRecs moved.m)

/-- `buffer` is what `malloc` hands out. -/
def insert (recno : Byte) (rec buffer : DBRec) (db : DB) (m : σ) : Bool × DB × σ :=
  if recno > db.nRecs then (false, { db with error := recnoOutOfRange }, m)
  else
    -- `i` from `n_recs` down to `recno`
    let moved := (List.range' recno.toNat (db.nRecs.toNat + 1 - recno.toNat)).reverse.foldl
      (fun s i => moveRec eeprom i (i + 1) s) ⟨{ db with error := dbOk }, buffer, m⟩
    let put := write eeprom recno rec moved.db moved.m
    let counted := { put.2.1 with nRecs := put.2.1.nRecs + 1 }
    (true, counted, eeprom.write counted.headPtr counted.nRecs put.2.2)

def append (rec : DBRec) (db : DB) (m : σ) : DB × σ :=
  let counted := { db with error := dbOk, nRecs := db.nRecs + 1 }
  let put := write eeprom counted.nRecs rec counted m
  (put.2.1, eeprom.write put.2.1.headPtr put.2.1.nRecs put.2.2)

end EEPROM

end DB

end ArduMash.Database.Library
