import Ymf262.Monitor.Basic

/-! The screen of a monitor: 25 lines of 80 characters. A box around the status text, a box
around a table with one row for each channel, and a line of help. Cells stand to the left of
their columns with one blank between columns, and everything is cut or filled to its width. -/
namespace Ymf262.Monitor
open Text

def width : Nat := 80

def fit (n : Nat) (cs : List Char) : List Char := padRight n (cs.take n)

@[simp] theorem length_fit (n : Nat) (cs : List Char) : (fit n cs).length = n := by
  simp only [fit, padRight, List.length_append, List.length_take, List.length_replicate]
  omega

inductive Color where
  | plain
  | yellow
  | green
  deriving DecidableEq

def Color.text : Color → String
  | plain => "Reset"
  | yellow => "Yellow"
  | green => "Green"

def columnWidths : List Nat := [3, 5, 5, 3, 8, 8, 5, 5, 3, 5]

def headings : List String :=
  ["ch", "block", "fnum", "kc", "env 0", "env 1", "att 0", "att 1", "fb", "pair"]

def pairCell (c : Chip) (ch : ChannelId) : String :=
  match c.activePair? ch with
  | some p => if p.primary = ch then "4op" else "4op+"
  | none => ""

def cells (c : Chip) (ch : ChannelId) : List String :=
  let t := c.tuning ch
  let modulator := c.operator ch.modulator
  let carrier := c.operator ch.carrier
  [decimal ch.val, decimal t.block, hex 3 t.fnum, decimal t.keyCode, modulator.envelope.text,
   carrier.envelope.text, decimal modulator.attenuation, decimal carrier.attenuation,
   decimal modulator.feedback, pairCell c ch]

def columns (widths : List Nat) (texts : List String) : List Char :=
  [' '].intercalate (widths.zipWith (fun n s => fit n s.toList) texts)

def tableRow (texts : List String) : List Char := columns columnWidths texts

/-- Yellow while an operator attacks, green while one is keyed. -/
def color (c : Chip) (ch : ChannelId) : Color :=
  let modulator := c.operator ch.modulator
  let carrier := c.operator ch.carrier
  if modulator.envelope = .attack ∨ carrier.envelope = .attack then .yellow
  else if c.keyed ch then .green
  else .plain

def colors (m : Monitor) : List Color := (List.finRange 18).map (color m.chip)

def status (m : Monitor) : String :=
  "tick " ++ decimal m.player.time.toNat ++ "  write " ++ decimal m.player.position ++ "/" ++
    decimal m.player.records.length ++ (if m.player.finished then " (end)" else "") ++
    "  OPL3 " ++ onOff m.chip.opl3Mode ++ "  rhythm " ++ onOff m.chip.rhythmMode

def top (title : String) : List Char :=
  let inner := (title.toList ++ List.replicate width '─').take (width - 2)
  '┌' :: inner ++ ['┐']

def bottom : List Char := '└' :: List.replicate (width - 2) '─' ++ ['┘']

def inside (cs : List Char) : List Char := '│' :: fit (width - 2) cs ++ ['│']

def boxed (title : String) (rows : List (List Char)) : List (List Char) :=
  top title :: rows.map inside ++ [bottom]

def helpText : String := "space/n: step  r: restart  q: quit"

def rows (m : Monitor) : List (List Char) :=
  tableRow headings :: (List.finRange 18).map fun ch => tableRow (cells m.chip ch)

def screen (m : Monitor) : List (List Char) :=
  boxed "opl3-monitor" [m.status.toList] ++ boxed "channels" m.rows ++ [fit width helpText.toList]

end Ymf262.Monitor
