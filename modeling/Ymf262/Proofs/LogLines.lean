import Mathlib.Data.List.DropRight
import Ymf262.Chip.Event
import Ymf262.Proofs.Numerals

/-! The log as text, and what can be read from it. A line consists of words with single blanks
between them; those of a write give the address and the value, in hexadecimal, and those about
modes say which are on. To read a line comes down to what its event says. -/
namespace Ymf262
open Text

namespace LogLine

def words (line : String) : List String := (line.toList.splitOn ' ').map String.ofList

def write? (line : String) : Option RegisterWrite :=
  match words line with
  | ["TRACE", "write_reg", register, "=", value] => do
    let address ← readHexUpTo? 0xFFFF register.toList
    let v ← readHexUpTo? 0xFF value.toList
    return ⟨.ofNat address, .ofNat v⟩
  | _ => none

/-- The lines after the last reset, or all of them without one. -/
def sinceReset (lines : List String) : List String := lines.rtakeWhile (· != "DEBUG reset chip")

end LogLine

structure Modes where
  opl3Mode : Bool
  rhythmMode : Bool
  extended : Pair → Bool

namespace Modes

def off : Modes := ⟨false, false, fun _ => false⟩

/-- The digits that enable pairs stand in the order of bits, the last pair first. -/
def read (m : Modes) (line : String) : Modes :=
  match LogLine.words line with
  | ["DEBUG", "reset", "chip"] => off
  | ["DEBUG", "OPL3", "mode", switch] => { m with opl3Mode := switch = "on" }
  | ["DEBUG", "rhythm", "mode", switch] => { m with rhythmMode := switch = "on" }
  | ["DEBUG", "4-op", "enable", digits] =>
    { m with extended := fun p => digits.toList.reverse[p.val]? = some '1' }
  | _ => m

def step (m : Modes) : Event → Modes
  | .reset => off
  | .opl3Mode on => { m with opl3Mode := on }
  | .rhythmMode on => { m with rhythmMode := on }
  | .fourOpEnable value => { m with extended := fun p => value.bit p }
  | _ => m

end Modes

namespace Event

def write? : Event → Option RegisterWrite
  | write address value => some ⟨address, value⟩
  | _ => none

def words : Event → List String
  | write address value => ["TRACE", "write_reg", hex 3 address.toNat, "=", hex 2 value.toNat]
  | reset => ["DEBUG", "reset", "chip"]
  | fourOpEnable value => ["DEBUG", "4-op", "enable", binary 6 (value.toNat % 64)]
  | opl3Mode on => ["DEBUG", "OPL3", "mode", onOff on]
  | rhythmMode on => ["DEBUG", "rhythm", "mode", onOff on]
  | graph pair code =>
    ["TRACE", "4-op", "channel", decimal pair.primary.val ++ "/" ++ decimal pair.secondary.val,
      "connection", decimal code.val]
  | records count => ["DEBUG", "parsed", decimal count, "IMF", "records"]

theorem line_eq (e : Event) : e.line = " ".intercalate e.words := by
  cases e with
  | write address value =>
    have verb : "write_reg " = "write_reg" ++ " " := rfl
    have sign : " = " = " " ++ "=" ++ " " := rfl
    show "TRACE" ++ " " ++ ("write_reg " ++ hex 3 address.toNat ++ " = " ++ hex 2 value.toNat) = _
    rw [verb, sign]
    simp only [words, String.intercalate_cons_cons, String.intercalate_singleton,
      String.append_assoc]
  | fourOpEnable value =>
    have verb : "4-op enable " = "4-op" ++ " " ++ "enable" ++ " " := rfl
    show "DEBUG" ++ " " ++ ("4-op enable " ++ binary 6 (value.toNat % 64)) = _
    rw [verb]
    simp only [words, String.intercalate_cons_cons, String.intercalate_singleton,
      String.append_assoc]
  | records count =>
    have verb : "parsed " = "parsed" ++ " " := rfl
    have unit : " IMF records" = " " ++ "IMF" ++ " " ++ "records" := rfl
    show "DEBUG" ++ " " ++ ("parsed " ++ decimal count ++ " IMF records") = _
    rw [verb, unit]
    simp only [words, String.intercalate_cons_cons, String.intercalate_singleton,
      String.append_assoc]
  | graph pair code =>
    revert pair code
    decide
  | opl3Mode on | rhythmMode on => cases on <;> rfl
  | reset => rfl

theorem blank_notMem_words (e : Event) : ∀ w ∈ e.words, ' ' ∉ w.toList := by
  cases e with
  | write address value => simp [words, blank_notMem_hex]
  | fourOpEnable value => simp [words, blank_notMem_binary]
  | records count => simp [words, blank_notMem_decimal]
  | graph pair code =>
    revert pair code
    decide
  | opl3Mode on | rhythmMode on => cases on <;> decide
  | reset => decide

theorem words_line (e : Event) : LogLine.words e.line = e.words := by
  have nonempty : e.words.map String.toList ≠ [] := by cases e <;> exact List.cons_ne_nil _ _
  rw [LogLine.words, line_eq, String.toList_intercalate]
  change (([' '].intercalate (e.words.map String.toList)).splitOn ' ').map _ = _
  rw [List.splitOn_intercalate ' ' (by simpa using e.blank_notMem_words) nonempty, List.map_map]
  simp

theorem write?_line (e : Event) : LogLine.write? e.line = e.write? := by
  rw [LogLine.write?, words_line]
  cases e with
  | write address value =>
    have register : address.toNat ≤ 0xFFFF := Nat.le_of_lt_succ address.toNat_lt
    have data : value.toNat ≤ 0xFF := Nat.le_of_lt_succ value.toNat_lt
    simp only [words, readHexUpTo?_hex _ register, readHexUpTo?_hex _ data]
    simp [write?]
  | _ => rfl

theorem line_eq_reset_iff (e : Event) : e.line = "DEBUG reset chip" ↔ e = .reset := by
  constructor
  · intro same
    have words : e.words = Event.reset.words := by
      rw [← words_line, ← words_line, same]
      rfl
    cases e with
    | reset => rfl
    | _ => simp [Event.words] at words
  · rintro rfl
    rfl

end Event

namespace Modes

theorem read_line (m : Modes) (e : Event) : m.read e.line = m.step e := by
  rw [read, Event.words_line]
  cases e with
  | fourOpEnable value =>
    have bit (p : Pair) : (value.toNat % 64).testBit p = value.bit p := by
      rw [show 64 = 2 ^ 6 from rfl, Nat.testBit_mod_two_pow, decide_eq_true p.isLt, Bool.true_and,
        Byte.bit]
    have digit (p : Pair) : decide ((binary 6 (value.toNat % 64)).toList.reverse[p.val]? =
        some '1') = value.bit p := by
      rw [getElem?_reverse_binary (Nat.mod_lt _ (by decide)) p.isLt, bit]
      cases value.bit p <;> rfl
    simp only [Event.words, digit, step]
  | opl3Mode on | rhythmMode on => cases on <;> rfl
  | _ => rfl

theorem step_of_not_admits {level : LogLevel} {e : Event} (h : level.admits e.level = false)
    (m : Modes) : m.step e = m := by
  cases e with
  | write address value => rfl
  | graph pair code => rfl
  | _ => cases level <;> cases h

end Modes

/-! Whole logs. -/

def LogLevel.lines (level : LogLevel) (events : List Event) : List String :=
  (events.filter fun e => level.admits e.level).map Event.line

theorem Modes.foldl_read_lines (level : LogLevel) (events : List Event) (m : Modes) :
    (level.lines events).foldl read m = events.foldl step m := by
  rw [LogLevel.lines, List.foldl_map, List.foldl_filter]
  congr 1
  funext m e
  cases shown : level.admits e.level with
  | true => exact (if_pos rfl).trans (read_line m e)
  | false => exact (if_neg Bool.false_ne_true).trans (step_of_not_admits shown m).symm

namespace Event

def written (events : List Event) : List RegisterWrite :=
  (events.rtakeWhile (· != .reset)).filterMap write?

theorem written_lines (events : List Event) :
    (LogLine.sinceReset (LogLevel.trace.lines events)).filterMap LogLine.write? =
      written events := by
  have all : LogLevel.trace.lines events = events.map line :=
    congrArg (List.map line) (List.filter_eq_self.mpr fun _ _ => rfl)
  have since : (events.map line).rtakeWhile (· != "DEBUG reset chip") =
      (events.rtakeWhile (· != .reset)).map line := by
    have same : (fun l => l != "DEBUG reset chip") ∘ line = (· != Event.reset) := by
      funext e
      simp only [Function.comp_apply, bne, beq_eq_decide, line_eq_reset_iff]
    rw [List.rtakeWhile, ← List.map_reverse, List.takeWhile_map, same, ← List.map_reverse]
    rfl
  rw [all, LogLine.sinceReset, since, List.filterMap_map, written]
  congr 1
  exact funext write?_line

theorem written_append {later : List Event} (h : .reset ∉ later) (earlier : List Event) :
    written (earlier ++ later) = written earlier ++ later.filterMap write? := by
  have kept : ∀ e ∈ later.reverse, (e != .reset) = true := by
    intro e member
    rw [bne_iff_ne]
    rintro rfl
    exact h (List.mem_reverse.mp member)
  rw [written, List.rtakeWhile, List.reverse_append, List.takeWhile_append_of_pos kept,
    List.reverse_append, List.reverse_reverse, List.filterMap_append]
  rfl

theorem written_reset (earlier : List Event) : written (earlier ++ [.reset]) = [] := by
  rw [written, List.rtakeWhile_concat_neg _ _ _ (by simp)]
  rfl

end Event

end Ymf262
