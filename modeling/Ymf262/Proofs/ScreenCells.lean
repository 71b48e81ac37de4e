import Mathlib.Data.List.DropRight
import Mathlib.Data.List.Forall2
import Ymf262.Monitor.Screen
import Ymf262.Proofs.Infallible
import Ymf262.Proofs.Numerals
import Ymf262.Proofs.Stepping

/-! What a screen shows. A text that fits its column and has no blank is got back from the row by
cutting the column out. All cells fit because of the ranges that every run keeps, so that a screen
tells chips apart by any value in its table. -/
namespace Ymf262.Monitor
open Text

/-! Columns. -/

/-- A text that a column of some width neither cuts nor confuses with its filling. -/
structure Fits (n : Nat) (text : String) : Prop where
  length : text.toList.length ≤ n
  blank : ' ' ∉ text.toList

/-- The cells of a row with one blank between columns, without the blanks that fill them. -/
def cutCells : List Nat → List Char → List String
  | [], _ => []
  | n :: widths, cs =>
    String.ofList ((cs.take n).rdropWhile (· = ' ')) :: cutCells widths (cs.drop (n + 1))

theorem rdropWhile_append_blanks (cs : List Char) (k : Nat) :
    (cs ++ List.replicate k ' ').rdropWhile (· = ' ') = cs.rdropWhile (· = ' ') := by
  induction k with
  | zero => rw [List.replicate_zero, List.append_nil]
  | succ k ih =>
    rw [List.replicate_succ', ← List.append_assoc, List.rdropWhile_concat_pos _ _ _ (by decide), ih]

theorem fit_of_le {n : Nat} {cs : List Char} (h : cs.length ≤ n) :
    fit n cs = cs ++ List.replicate (n - cs.length) ' ' := by
  rw [fit, List.take_of_length_le h, padRight]

theorem Fits.rdropWhile_fit {n : Nat} {text : String} (h : Fits n text) :
    (fit n text.toList).rdropWhile (· = ' ') = text.toList := by
  rw [fit_of_le h.length, rdropWhile_append_blanks, List.rdropWhile_eq_self_iff]
  intro nonempty last
  apply h.blank
  rw [← of_decide_eq_true last]
  exact List.getLast_mem nonempty

theorem columns_cons_cons (n k : Nat) (widths : List Nat) (s t : String) (texts : List String) :
    columns (n :: k :: widths) (s :: t :: texts) =
      fit n s.toList ++ ' ' :: columns (k :: widths) (t :: texts) := by
  simp [columns, List.intercalate_cons_cons]

theorem cutCells_columns {widths : List Nat} {texts : List String}
    (fits : List.Forall₂ Fits widths texts) (rest : List Char) :
    cutCells widths (columns widths texts ++ rest) = texts := by
  induction fits with
  | nil => rfl
  | @cons n s widths texts first later ih =>
    have cut (more : List Char) :
        String.ofList (((fit n s.toList ++ more).take n).rdropWhile (· = ' ')) = s := by
      rw [List.take_left' (length_fit n _), first.rdropWhile_fit, String.ofList_toList]
    cases later with
    | nil =>
      have alone : columns [n] [s] = fit n s.toList := by simp [columns]
      rw [alone, cutCells, cut]
      rfl
    | @cons k t widths texts next later =>
      have skip (more : List Char) : (fit n s.toList ++ ' ' :: more).drop (n + 1) = more := by
        rw [List.append_cons]
        apply List.drop_left'
        rw [List.length_append, length_fit]
        rfl
      rw [columns_cons_cons, List.append_assoc, List.cons_append, cutCells, cut, skip, ih]

theorem length_columns {widths : List Nat} {texts : List String}
    (fits : List.Forall₂ Fits widths texts) :
    (columns widths texts).length = widths.sum + (widths.length - 1) := by
  induction fits with
  | nil => rfl
  | cons first later ih =>
    cases later with
    | nil => simp [columns]
    | cons next later =>
      rw [columns_cons_cons, List.length_append, List.length_cons, length_fit, ih]
      simp only [List.sum_cons, List.length_cons]
      omega

/-! Lines. -/

@[simp] theorem length_top (title : String) : (top title).length = width := by
  simp [top, width]

@[simp] theorem length_bottom : bottom.length = width := by
  simp [bottom, width]

@[simp] theorem length_inside (cs : List Char) : (inside cs).length = width := by
  simp [inside, width]

theorem length_of_mem_boxed {title : String} {rows : List (List Char)} {line : List Char}
    (h : line ∈ boxed title rows) : line.length = width := by
  simp only [boxed, List.mem_append, List.mem_cons, List.mem_map, List.not_mem_nil,
    or_false] at h
  rcases h with (rfl | ⟨row, -, rfl⟩) | rfl
  · exact length_top title
  · exact length_inside row
  · exact length_bottom

theorem length_of_mem_screen {m : Monitor} {line : List Char} (h : line ∈ m.screen) :
    line.length = 80 := by
  simp only [screen, List.mem_append, List.mem_singleton] at h
  rcases h with (status | table) | rfl
  · exact length_of_mem_boxed status
  · exact length_of_mem_boxed table
  · exact length_fit width _

theorem length_screen (m : Monitor) : m.screen.length = 25 := by
  simp [screen, boxed, rows]

/-- The cells of a channel in the lines of a screen. Five lines stand above the channels, and the
border in front of the cells. -/
def readRow (lines : List (List Char)) (ch : ChannelId) : List String :=
  cutCells columnWidths ((lines.getD (5 + ch.val) []).drop 1)

theorem getD_screen (m : Monitor) (ch : ChannelId) :
    m.screen.getD (5 + ch.val) [] = inside (tableRow (cells m.chip ch)) := by
  have channels : m.screen =
      [top "opl3-monitor", inside m.status.toList, bottom, top "channels",
        inside (tableRow headings)] ++
      (((List.finRange 18).map fun ch => inside (tableRow (cells m.chip ch))) ++
        [bottom, fit width helpText.toList]) := by
    simp [screen, boxed, rows, Function.comp_def]
  rw [channels, List.getD_eq_getElem?_getD, List.getElem?_append_right (by simp),
    List.getElem?_append_left (by simp)]
  simp

theorem readRow_screen {m : Monitor} {ch : ChannelId}
    (fits : List.Forall₂ Fits columnWidths (cells m.chip ch)) :
    readRow m.screen ch = cells m.chip ch := by
  have within : (columns columnWidths (cells m.chip ch)).length ≤ width - 2 := by
    rw [length_columns fits]
    decide
  unfold readRow
  rw [getD_screen, tableRow]
  show cutCells columnWidths (fit (width - 2) _ ++ ['│']) = _
  rw [fit_of_le within, List.append_assoc, cutCells_columns fits]

/-! Values. -/

def role (c : Chip) (ch : ChannelId) : PairRole :=
  if ∃ p, c.joined p ∧ ch = p.primary then .primary
  else if ∃ p, c.joined p ∧ ch = p.secondary then .secondary
  else .single

def mark : PairRole → String
  | .primary => "4op"
  | .secondary => "4op+"
  | .single => ""

structure View where
  block : Nat
  fnum : Nat
  keyCode : Nat
  envelopes : EnvelopePhase × EnvelopePhase
  attenuations : Nat × Nat
  feedback : Nat
  role : PairRole
  deriving DecidableEq

def view (c : Chip) (ch : ChannelId) : View where
  block := (c.tuning ch).block
  fnum := (c.tuning ch).fnum
  keyCode := (c.tuning ch).keyCode
  envelopes := ((c.operator ch.modulator).envelope, (c.operator ch.carrier).envelope)
  attenuations := ((c.operator ch.modulator).attenuation, (c.operator ch.carrier).attenuation)
  feedback := (c.operator ch.modulator).feedback
  role := role c ch

namespace View

def texts (v : View) (ch : ChannelId) : List String :=
  [decimal ch.val, decimal v.block, hex 3 v.fnum, decimal v.keyCode, v.envelopes.1.text,
    v.envelopes.2.text, decimal v.attenuations.1, decimal v.attenuations.2, decimal v.feedback,
    mark v.role]

structure InRange (v : View) : Prop where
  block : v.block < 8
  fnum : v.fnum < 1024
  keyCode : v.keyCode < 16
  attenuations : v.attenuations.1 ≤ 476 ∧ v.attenuations.2 ≤ 476
  feedback : v.feedback ≤ 8

variable {u v : View}

theorem InRange.length_fnum (h : v.InRange) : (hex 3 v.fnum).toList.length = 3 :=
  length_hex (by decide) (Nat.lt_trans h.fnum (by decide))

theorem fits_decimal {n k : Nat} (wide : 0 < k) (h : n < 10 ^ k) : Fits k (decimal n) :=
  ⟨length_decimal_le wide h, blank_notMem_decimal n⟩

theorem fits_envelope (e : EnvelopePhase) : Fits 8 e.text := by
  constructor <;> cases e <;> decide

theorem fits_mark (r : PairRole) : Fits 5 (mark r) := by
  constructor <;> cases r <;> decide

theorem InRange.fits (h : v.InRange) (ch : ChannelId) :
    List.Forall₂ Fits columnWidths (v.texts ch) := by
  have channel := ch.isLt
  have digits : Fits 5 (hex 3 v.fnum) :=
    ⟨h.length_fnum.trans_le (by decide), blank_notMem_hex 3 _⟩
  obtain ⟨block, -, keyCode, ⟨modulator, carrier⟩, feedback⟩ := h
  refine .cons ?_ (.cons ?_ (.cons digits (.cons ?_ (.cons (fits_envelope _)
    (.cons (fits_envelope _) (.cons ?_ (.cons ?_ (.cons ?_ (.cons (fits_mark _) .nil)))))))))
  all_goals
    apply fits_decimal (by decide)
    omega

theorem eq_of_envelope {d e : EnvelopePhase} (h : d.text = e.text) : d = e := by
  apply Option.some.inj
  rw [← EnvelopePhase.ofText?_text d, h, EnvelopePhase.ofText?_text]

theorem eq_of_mark {q r : PairRole} (h : mark q = mark r) : q = r := by
  cases q <;> cases r <;> simp [mark] at h ⊢

theorem eq_of_texts {ch : ChannelId} (h : u.texts ch = v.texts ch) : u = v := by
  simp only [texts, List.cons.injEq, and_true, true_and] at h
  obtain ⟨block, fnum, keyCode, modulator, carrier, quiet, quiet', feedback, role⟩ := h
  have envelopes : u.envelopes = v.envelopes :=
    Prod.ext (eq_of_envelope modulator) (eq_of_envelope carrier)
  have attenuations : u.attenuations = v.attenuations :=
    Prod.ext (eq_of_decimal quiet) (eq_of_decimal quiet')
  cases u
  cases v
  rw [mk.injEq]
  exact ⟨eq_of_decimal block, eq_of_hex fnum, eq_of_decimal keyCode, envelopes, attenuations,
    eq_of_decimal feedback, eq_of_mark role⟩

end View

theorem role_of_primary {c : Chip} {p : Pair} (h : c.joined p) : role c p.primary = .primary :=
  if_pos ⟨p, h, rfl⟩

theorem role_of_secondary {c : Chip} {p : Pair} (h : c.joined p) :
    role c p.secondary = .secondary := by
  unfold role
  rw [if_neg, if_pos ⟨p, h, rfl⟩]
  rintro ⟨q, -, same⟩
  exact q.primary_ne_secondary_of p same.symm

theorem pairCell_eq (c : Chip) (ch : ChannelId) : pairCell c ch = mark (role c ch) := by
  unfold pairCell
  cases active : c.activePair? ch with
  | none =>
    have alone (p : Pair) : ¬ (c.joined p ∧ (ch = p.primary ∨ ch = p.secondary)) := by
      rw [← Chip.activePair?_eq_some_iff, active]
      simp
    unfold role
    rw [if_neg fun ⟨p, joined, same⟩ => alone p ⟨joined, .inl same⟩,
      if_neg fun ⟨p, joined, same⟩ => alone p ⟨joined, .inr same⟩]
    rfl
  | some p =>
    obtain ⟨joined, rfl | rfl⟩ := Chip.activePair?_eq_some_iff.mp active
    · rw [role_of_primary joined]
      exact if_pos rfl
    · rw [role_of_secondary joined]
      exact if_neg (p.primary_ne_secondary_of p)

theorem cells_eq (c : Chip) (ch : ChannelId) : cells c ch = (view c ch).texts ch := by
  rw [cells, pairCell_eq]
  rfl

/-! Ranges. -/

theorem feedback_le {c : Chip} {file : Register → Byte} (h : c.Holds file) (s : Slot) :
    (c.operator s).feedback ≤ 8 := by
  rw [← h.connections s]
  show (if _ = 0 then 0 else 9 - _) ≤ 8
  split <;> omega

variable {records : List Imf.Record} {step : Nat} {m : Monitor}

theorem Loaded.inRange_view (h : m.Loaded records step) (ch : ChannelId) :
    (view m.chip ch).InRange := by
  obtain ⟨actions, chip⟩ := h.chip
  rw [chip]
  obtain ⟨coherent, bounded⟩ := Chip.run_keeps (Chip.kept_bounded .default) actions
  have tuning := bounded.tunings ch
  have quiet := Chip.attenuation_le coherent bounded
  constructor
  · show (Chip.tuning _ ch).blockFnum / 1024 < 8
    have := tuning.blockFnum
    omega
  · exact Nat.mod_lt _ (by decide)
  · exact tuning.keyCode
  · exact ⟨quiet _, quiet _⟩
  · exact feedback_le (Chip.holds_run .default actions) _

/-- Whatever has happened to a monitor, its rows give back all of their cells. -/
theorem Loaded.readRow_screen (h : m.Loaded records step) (ch : ChannelId) :
    readRow m.screen ch = (view m.chip ch).texts ch := by
  rw [← cells_eq]
  apply Monitor.readRow_screen
  rw [cells_eq]
  exact (h.inRange_view ch).fits ch

/-- The screen of a monitor after any moves keeps its size, and the row of each channel gives back
ten cells that nothing is cut from. So what the table shows of a channel cannot differ behind equal
screens, whatever logs and moves have led to them. -/
theorem screen_run (records : List Imf.Record) (step : Nat) (moves : List Move) :
    let m := (start records step).run moves
    m.screen.length = 25 ∧ (∀ line ∈ m.screen, line.length = 80) ∧
      (∀ ch, let v := view m.chip ch
        readRow m.screen ch =
          [decimal ch.val, decimal v.block, hex 3 v.fnum, decimal v.keyCode, v.envelopes.1.text,
            v.envelopes.2.text, decimal v.attenuations.1, decimal v.attenuations.2,
            decimal v.feedback, mark v.role] ∧
        (hex 3 v.fnum).toList.length = 3) ∧
      ∀ records' step' moves' ch, let m' := (start records' step').run moves'
        view m.chip ch ≠ view m'.chip ch → m.screen ≠ m'.screen := by
  intro m
  have loaded := loaded_run records step moves
  refine ⟨length_screen m, fun _ => length_of_mem_screen, ?_, ?_⟩
  · intro ch
    exact ⟨loaded.readRow_screen ch, (loaded.inRange_view ch).length_fnum⟩
  · intro records' step' moves' ch m' differ same
    have loaded' := loaded_run records' step' moves'
    have texts : (view m.chip ch).texts ch = (view m'.chip ch).texts ch := by
      rw [← loaded.readRow_screen, ← loaded'.readRow_screen, same]
    exact differ (View.eq_of_texts texts)

/-- A log and some moves that join the first pair show as `4op` and `4op+`, and their screen is not
that of a monitor just started. -/
theorem screen_run_joined :
    let m := (start [⟨0xA0, 0x98, 0⟩, ⟨0xB0, 0x31, 2⟩] 1).run
      [.write ⟨0x105, 1⟩, .write ⟨0x104, 1⟩, .write ⟨0xC0, 0x0E⟩, .write ⟨0x40, 0x3F⟩, .advance,
        .envelope 1 .sustain]
    (top "opl3-monitor").length = 80 ∧
      readRow m.screen 0 = ["0", "4", "198", "8", "ATTACK", "SUSTAIN", "252", "0", "2", "4op"] ∧
      readRow m.screen 3 = ["3", "0", "000", "0", "ATTACK", "ATTACK", "0", "0", "0", "4op+"] ∧
      m.screen ≠ ((start [] 1).run []).screen := by
  intro m
  obtain ⟨-, lines, row, differ⟩ := screen_run [⟨0xA0, 0x98, 0⟩, ⟨0xB0, 0x31, 2⟩] 1
    [.write ⟨0x105, 1⟩, .write ⟨0x104, 1⟩, .write ⟨0xC0, 0x0E⟩, .write ⟨0x40, 0x3F⟩, .advance,
      .envelope 1 .sustain]
  have first : view m.chip 0 = ⟨4, 0x198, 8, (.attack, .sustain), (252, 0), 2, .primary⟩ := by
    simp only [m, start, Chip.fresh_eq]
    decide +kernel
  have fourth : view m.chip 3 = ⟨0, 0, 0, (.attack, .attack), (0, 0), 0, .secondary⟩ := by
    simp only [m, start, Chip.fresh_eq]
    decide +kernel
  have idle : view ((start [] 1).run []).chip 0 ≠ view m.chip 0 := by
    rw [first]
    simp only [run, List.foldl_nil, start, Chip.fresh_eq]
    decide +kernel
  refine ⟨lines _ (List.mem_cons_self ..), ?_, ?_, differ [] 1 [] 0 idle.symm⟩
  · rw [(row 0).1, first]
    decide +kernel
  · rw [(row 3).1, fourth]
    decide +kernel

end Ymf262.Monitor
