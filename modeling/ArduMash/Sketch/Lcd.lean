import ArduMash.Foundation.CharacterDisplay
import ArduMash.Sketch.Hardware

/-!
What the calls to the LCD put on a display. How a `float` is spelled and what a
missing message prints is left open; numbers are printed in decimal.
-/

namespace ArduMash.Sketch.Lcd
open Globals Hardware Foundation.CharacterDisplay

structure Printer where
  float : ℚ → List Char
  missing : List Char

def Printer.item (printer : Printer) : PrintItem → List Char
  | .text text => text.toList
  | .number value => Nat.toDigits 10 value
  | .float value => printer.float value
  | .message (some text) => text.toList
  | .message none => printer.missing

/-- `setCursor` takes the column first. -/
def Printer.op (printer : Printer) : LcdOp → Op
  | .clear => .clear
  | .setCursor column row => .setCursor row column
  | .print item => .print (printer.item item)

/-- The panel after the calls. -/
def Printer.render (printer : Printer) (display : Display) (ops : List LcdOp)
    (panel : display.Panel) : display.Panel :=
  display.run (ops.map printer.op) panel

/-- The text of some items printed one after the other. -/
def Printer.spell (printer : Printer) (items : List PrintItem) : List Char :=
  items.flatMap printer.item

theorem spell_append (printer : Printer) (first rest : List PrintItem) :
    printer.spell (first ++ rest) = printer.spell first ++ printer.spell rest :=
  List.flatMap_append

theorem spell_singleton (printer : Printer) (item : PrintItem) :
    printer.spell [item] = printer.item item := List.append_nil _

section Render
variable (printer : Printer) (display : Display)

theorem render_append (first rest : List LcdOp) (panel : display.Panel) :
    printer.render display (first ++ rest) panel =
      printer.render display rest (printer.render display first panel) := by
  unfold Printer.render
  rw [List.map_append, display.run_append]

theorem render_prints (items : List PrintItem) (panel : display.Panel) :
    printer.render display (items.map .print) panel =
      display.print (printer.spell items) panel := by
  unfold Printer.render Printer.spell
  rw [List.flatMap_def, ← display.run_prints, List.map_map, List.map_map]
  rfl

/-- A cursor and what is printed there make one field. -/
theorem render_field (column row : ℕ) (items : List PrintItem) (panel : display.Panel) :
    printer.render display (.setCursor column row :: items.map .print) panel =
      display.run (Field.ops ⟨row, column, printer.spell items⟩) panel := by
  have placed := render_append printer display [.setCursor column row] (items.map .print) panel
  rw [render_prints] at placed
  exact placed

end Render

end ArduMash.Sketch.Lcd
