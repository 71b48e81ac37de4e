import Mathlib.Data.List.DropRight
import Mathlib.Data.List.Forall2
import Mathlib.Data.List.TakeDrop
import Mathlib.Data.Nat.Digits.Defs
import Ymf262.Assignment
import Ymf262.Proofs.Numerals

/-! The grammar of register writes, stated without the reader: digits by their place in the row of
all digits, numbers by what may stand in front of their digits, and a text by what is left of it
between blanks. The reader accepts exactly what the grammar has, and names the first side that it
cannot take. -/
namespace Ymf262

namespace Text

/-- The digits in order of their values, in either case. -/
def digitRows : List String := ["0123456789abcdef", "0123456789ABCDEF"]

def HexDigit (c : Char) (d : Nat) : Prop := ∃ row ∈ digitRows, row.toList[d]? = some c

instance (c : Char) (d : Nat) : Decidable (HexDigit c d) :=
  inferInstanceAs (Decidable (∃ row ∈ digitRows, row.toList[d]? = some c))

def marks : List (List Char) := [[], ['0', 'x'], ['0', 'X']]

def signs : List (List Char) := [[], ['+']]

/-- A number and its value: digits, the most significant first, behind an optional base mark and an
optional plus sign. -/
def HexNumber (cs : List Char) (n : Nat) : Prop :=
  ∃ mark ∈ marks, ∃ sign ∈ signs, ∃ digits ds,
    cs = mark ++ sign ++ digits ∧ digits ≠ [] ∧ List.Forall₂ HexDigit digits ds ∧
      n = Nat.ofDigits 16 ds.reverse

/-- What is left of a text without the blanks at either end. -/
structure Trimmed (cs core : List Char) : Prop where
  parts : ∃ left right, cs = left ++ core ++ right ∧
    (∀ c ∈ left, isBlank c) ∧ ∀ c ∈ right, isBlank c
  first : ∀ c ∈ core.head?, ¬ isBlank c
  last : ∀ c ∈ core.getLast?, ¬ isBlank c

/-! Digits. -/

theorem HexDigit.lt {c : Char} {d : Nat} (h : HexDigit c d) : d < 16 := by
  obtain ⟨row, member, own⟩ := h
  have length : ∀ row ∈ digitRows, row.toList.length = 16 := by decide
  rw [← length row member]
  exact (List.getElem?_eq_some_iff.mp own).1

theorem HexDigit.of_rows {p : Char → Nat → Prop}
    (all : ∀ row ∈ digitRows, ∀ d : Fin 16, p (row.toList.getD d ' ') d) {c : Char} {d : Nat}
    (h : HexDigit c d) : p c d := by
  have bound := h.lt
  obtain ⟨row, member, own⟩ := h
  have held := all row member ⟨d, bound⟩
  rwa [List.getD_eq_getElem?_getD, own, Option.getD_some] at held

theorem of_ascii {p : Char → Prop} (all : ∀ n : Fin 128, p (.ofNat n)) {c : Char}
    (small : c.toNat < 128) : p c := by
  have held := all ⟨c.toNat, small⟩
  rwa [Char.ofNat_toNat] at held

theorem toNat_lt_of_hexDigit? {c : Char} {d : Nat} (h : hexDigit? c = some d) : c.toNat < 128 := by
  unfold hexDigit? at h
  have bound (top : Char) (small : top.toNat < 128) (le : c ≤ top) : c.toNat < 128 :=
    Nat.lt_of_le_of_lt (Char.le_def.mp le) small
  split at h
  · rename_i digit
    exact bound '9' (by decide) digit.2
  · split at h
    · rename_i lower
      exact bound 'f' (by decide) lower.2
    · split at h
      · rename_i upper
        exact bound 'F' (by decide) upper.2
      · cases h

theorem hexDigit?_eq_some_iff {c : Char} {d : Nat} : hexDigit? c = some d ↔ HexDigit c d := by
  constructor
  · intro h
    exact of_ascii (p := fun c => ∀ d ∈ hexDigit? c, HexDigit c d) (by decide +kernel)
      (toNat_lt_of_hexDigit? h) d h
  · exact HexDigit.of_rows (p := fun c d => hexDigit? c = some d) (by decide +kernel)

theorem mapM_hexDigit?_eq_some_iff {cs : List Char} {ds : List Nat} :
    cs.mapM hexDigit? = some ds ↔ List.Forall₂ HexDigit cs ds := by
  constructor
  · intro read
    induction cs generalizing ds with
    | nil =>
      cases read
      exact .nil
    | cons c cs ih =>
      simp only [List.mapM_cons, Option.bind_eq_bind, Option.bind_eq_some_iff, Option.pure_def,
        Option.some.injEq] at read
      obtain ⟨d, digit, ds, digits, rfl⟩ := read
      exact .cons (hexDigit?_eq_some_iff.mp digit) (ih digits)
  · intro digits
    induction digits with
    | nil => rfl
    | cons digit _ ih =>
      rw [List.mapM_cons, hexDigit?_eq_some_iff.mpr digit, ih]
      rfl

theorem hexValue_eq (ds : List Nat) : hexValue ds = Nat.ofDigits 16 ds.reverse := by
  induction ds using List.reverseRecOn with
  | nil => rfl
  | append_singleton ds d ih =>
    rw [hexValue_append_singleton, ih, List.reverse_concat, Nat.ofDigits_cons, Nat.add_comm]

/-! Numbers. -/

theorem exists_mark (cs : List Char) : ∃ mark ∈ marks, cs = mark ++ unmarked cs := by
  unfold unmarked
  split
  · exact ⟨['0', 'x'], by decide, rfl⟩
  · exact ⟨['0', 'X'], by decide, rfl⟩
  · exact ⟨[], by decide, rfl⟩

theorem exists_sign (cs : List Char) : ∃ sign ∈ signs, cs = sign ++ unsigned cs := by
  unfold unsigned
  split
  · exact ⟨['+'], by decide, rfl⟩
  · exact ⟨[], by decide, rfl⟩

theorem unsigned_sign {sign digits : List Char} {ds : List Nat} (h : sign ∈ signs)
    (read : digits.mapM hexDigit? = some ds) : unsigned (sign ++ digits) = digits := by
  simp only [signs, List.mem_cons, List.not_mem_nil, or_false] at h
  rcases h with rfl | rfl
  · exact unsigned_of_digits read
  · rfl

theorem unmarked_mark {mark sign digits : List Char} {ds : List Nat} (h : mark ∈ marks)
    (signed : sign ∈ signs) (read : digits.mapM hexDigit? = some ds) :
    unmarked (mark ++ (sign ++ digits)) = sign ++ digits := by
  simp only [marks, signs, List.mem_cons, List.not_mem_nil, or_false] at h signed
  rcases h with rfl | rfl | rfl
  · rcases signed with rfl | rfl
    · exact unmarked_of_digits read
    · rfl
  · rfl
  · rfl

/-- The reader takes a mark, a sign and digits for what they are, and nothing else. -/
theorem readHex?_eq_some_iff {cs : List Char} {n : Nat} :
    readHex? cs = some n ↔ HexNumber cs n := by
  constructor
  · intro read
    obtain ⟨mark, marked, whole⟩ := exists_mark cs
    obtain ⟨sign, signed, rest⟩ := exists_sign (unmarked cs)
    obtain ⟨ds, digits, rfl⟩ := Option.map_eq_some_iff.mp read
    unfold hexDigits? at digits
    split at digits
    · cases digits
    · rename_i nonempty
      refine ⟨mark, marked, sign, signed, _, ds, ?_, nonempty,
        mapM_hexDigit?_eq_some_iff.mp digits, hexValue_eq ds⟩
      rw [List.append_assoc, ← rest]
      exact whole
  · rintro ⟨mark, marked, sign, signed, digits, ds, rfl, nonempty, each, rfl⟩
    have read := mapM_hexDigit?_eq_some_iff.mpr each
    rw [readHex?, List.append_assoc, unmarked_mark marked signed read, unsigned_sign signed read,
      hexDigits?, if_neg nonempty, read, Option.map_some, hexValue_eq]

theorem readHexUpTo?_eq_some_iff {limit n : Nat} {cs : List Char} :
    readHexUpTo? limit cs = some n ↔ HexNumber cs n ∧ n ≤ limit := by
  rw [readHexUpTo?, Option.filter_eq_some_iff, readHex?_eq_some_iff, decide_eq_true_eq]

theorem readHexUpTo?_eq_none_iff {limit : Nat} {cs : List Char} :
    readHexUpTo? limit cs = none ↔ ¬ ∃ n ≤ limit, HexNumber cs n := by
  rw [Option.eq_none_iff_forall_ne_some]
  simp only [ne_eq, readHexUpTo?_eq_some_iff]
  constructor
  · rintro unread ⟨n, bound, number⟩
    exact unread n ⟨number, bound⟩
  · rintro other n ⟨number, bound⟩
    exact other ⟨n, bound, number⟩

/-! Blanks. -/

theorem dropWhile_eq_iff {p : Char → Bool} {cs rest : List Char} :
    cs.dropWhile p = rest ↔
      (∃ front, cs = front ++ rest ∧ ∀ c ∈ front, p c) ∧ ∀ c ∈ rest.head?, ¬ p c := by
  constructor
  · rintro rfl
    refine ⟨⟨cs.takeWhile p, List.takeWhile_append_dropWhile.symm, fun c => List.mem_takeWhile_imp⟩,
      ?_⟩
    intro c first
    have := List.head?_dropWhile_not p cs
    rw [Option.mem_def.mp first] at this
    simpa using this
  · rintro ⟨⟨front, rfl, dropped⟩, stop⟩
    rw [List.dropWhile_append_of_pos dropped]
    cases rest with
    | nil => rfl
    | cons c rest => exact List.dropWhile_cons_of_neg (stop c rfl)

theorem trimmed_trim (cs : List Char) : Trimmed cs (trim cs) := by
  obtain ⟨⟨left, whole, front⟩, first⟩ := dropWhile_eq_iff.mp (Eq.refl (cs.dropWhile isBlank))
  obtain ⟨⟨right, rest, back⟩, last⟩ :=
    dropWhile_eq_iff.mp (Eq.refl ((cs.dropWhile isBlank).reverse.dropWhile isBlank))
  have inner : cs.dropWhile isBlank = trim cs ++ right.reverse := by
    rw [← List.reverse_reverse (cs.dropWhile isBlank), rest, List.reverse_append]
    rfl
  constructor
  · refine ⟨left, right.reverse, ?_, front, fun c h => back c (List.mem_reverse.mp h)⟩
    rw [List.append_assoc, ← inner]
    exact whole
  · intro c h
    apply first c
    rw [inner]
    exact List.mem_head?_append_of_mem_head? h
  · intro c h
    apply last c
    rwa [trim, List.getLast?_reverse] at h

theorem Trimmed.eq_trim {cs core : List Char} (h : Trimmed cs core) : core = trim cs := by
  obtain ⟨⟨left, right, rfl, front, back⟩, first, last⟩ := h
  unfold trim
  cases core with
  | nil =>
    have blanks : (left ++ [] ++ right).dropWhile isBlank = [] := by
      rw [List.dropWhile_eq_nil_iff]
      intro c h
      rw [List.append_nil] at h
      exact (List.mem_append.mp h).elim (front c) (back c)
    rw [blanks]
    rfl
  | cons c core =>
    have inner : (left ++ c :: core ++ right).dropWhile isBlank = c :: core ++ right :=
      dropWhile_eq_iff.mpr ⟨⟨left, List.append_assoc .., front⟩, first⟩
    have outer :
        (right.reverse ++ (c :: core).reverse).dropWhile isBlank = (c :: core).reverse := by
      refine dropWhile_eq_iff.mpr ⟨⟨_, rfl, fun c h => back c (List.mem_reverse.mp h)⟩, ?_⟩
      rwa [List.head?_reverse]
    rw [inner, List.reverse_append, outer, List.reverse_reverse]

/-! Writing. -/

/-- The ways to write a number: between blanks, with or without a base mark, with any number of
zeros in front, and with letters of either case. -/
def Rendering (n : Nat) (cs : List Char) : Prop :=
  ∃ left mark zeros digits right,
    cs = left ++ (mark ++ List.replicate zeros '0' ++ digits) ++ right ∧
    (∀ c ∈ left, isBlank c) ∧ mark ∈ marks ∧ digits.map Char.toLower = Nat.toDigits 16 n ∧
    ∀ c ∈ right, isBlank c

theorem HexDigit.of_toLower {c : Char} {d : Nat} (h : HexDigit c.toLower d) : HexDigit c d := by
  have small : c.toNat < 128 ∨ c.toLower = c := by
    unfold Char.toLower
    split
    · rename_i upper
      left
      exact Nat.lt_of_le_of_lt (UInt32.le_iff_toNat_le.mp upper.2) (by decide)
    · exact .inr rfl
  rcases small with ascii | same
  · exact of_ascii (p := fun c => ∀ d : Fin 16, HexDigit c.toLower d → HexDigit c d)
      (by decide +kernel) ascii ⟨d, h.lt⟩ h
  · rwa [same] at h

theorem HexNumber.all {p : Char → Bool} (fronts : ∀ front ∈ marks ++ signs, front.all p)
    (rows : ∀ row ∈ digitRows, row.toList.all p) {cs : List Char} {n : Nat}
    (h : HexNumber cs n) : ∀ c ∈ cs, p c := by
  obtain ⟨mark, marked, sign, signed, digits, ds, rfl, -, each, -⟩ := h
  simp only [List.forall_mem_append]
  refine ⟨⟨?_, ?_⟩, ?_⟩
  · exact List.all_eq_true.mp (fronts mark (List.mem_append_left _ marked))
  · exact List.all_eq_true.mp (fronts sign (List.mem_append_right _ signed))
  · induction each with
    | nil => exact List.forall_mem_nil _
    | cons first _ ih =>
      obtain ⟨row, member, place⟩ := first
      rw [List.forall_mem_cons]
      exact ⟨List.all_eq_true.mp (rows row member) _ (List.mem_of_getElem? place), ih⟩

theorem HexNumber.char {cs : List Char} {n : Nat} (h : HexNumber cs n) {c : Char}
    (member : c ∈ cs) : ¬ isBlank c ∧ c ≠ '=' := by
  have plain := h.all (p := fun c => !isBlank c && c != '=') (by decide +kernel)
    (by decide +kernel) c member
  simpa using plain

theorem Rendering.number {n : Nat} {cs : List Char} (h : Rendering n cs) :
    ∃ left core right, cs = left ++ core ++ right ∧ (∀ c ∈ left, isBlank c) ∧
      (∀ c ∈ right, isBlank c) ∧ HexNumber core n := by
  obtain ⟨left, mark, zeros, digits, right, rfl, front, marked, written, back⟩ := h
  refine ⟨left, _, right, rfl, front, back, mark, marked, [], by decide,
    List.replicate zeros '0' ++ digits, ?_⟩
  obtain ⟨ds, read, value⟩ := mapM_hexDigit?_toDigits n
  have each : List.Forall₂ HexDigit digits ds := by
    rw [← written, mapM_hexDigit?_eq_some_iff, List.forall₂_map_left_iff] at read
    exact read.imp fun _ _ => HexDigit.of_toLower
  have whole : (List.replicate zeros '0' ++ digits).mapM hexDigit? =
      some (List.replicate zeros 0 ++ ds) := by
    rw [List.mapM_append, mapM_hexDigit?_pad, mapM_hexDigit?_eq_some_iff.mpr each]
    rfl
  refine ⟨_, by simp, ?_, mapM_hexDigit?_eq_some_iff.mp whole, ?_⟩
  · apply List.append_ne_nil_of_right_ne_nil
    rintro rfl
    exact Nat.toDigits_ne_nil written.symm
  · rw [← hexValue_eq, hexValue_pad, value]

theorem Rendering.trimmed {n : Nat} {cs : List Char} (h : Rendering n cs) :
    ∃ core, Trimmed cs core ∧ HexNumber core n := by
  obtain ⟨left, core, right, parts, front, back, number⟩ := h.number
  refine ⟨core, ⟨⟨left, right, parts, front, back⟩, ?_, ?_⟩, number⟩
  · intro c first
    exact (number.char (List.mem_of_mem_head? first)).1
  · intro c last
    exact (number.char (List.mem_of_mem_getLast? last)).1

theorem Rendering.notMem {n : Nat} {cs : List Char} (h : Rendering n cs) : '=' ∉ cs := by
  obtain ⟨left, core, right, rfl, front, back, number⟩ := h.number
  have sign : isBlank '=' = false := by decide
  simp only [List.mem_append, not_or]
  refine ⟨⟨fun own => ?_, fun own => (number.char own).2 rfl⟩, fun own => ?_⟩
  · exact Bool.false_ne_true (sign.symm.trans (front _ own))
  · exact Bool.false_ne_true (sign.symm.trans (back _ own))

end Text

namespace RegisterWrite
open Text

theorem split?_append {before : List Char} (first : '=' ∉ before) (after : List Char) :
    split? (before ++ '=' :: after) = some (before, after) := by
  have skipped : ∀ c ∈ before, (c != '=') = true := by
    intro c h
    rw [bne_iff_ne]
    rintro rfl
    exact first h
  rw [split?, List.span_eq_takeWhile_dropWhile, List.takeWhile_append_of_pos skipped,
    List.dropWhile_append_of_pos skipped, List.takeWhile_cons_of_neg (by simp),
    List.dropWhile_cons_of_neg (by simp), List.append_nil]

theorem split?_of_notMem {cs : List Char} (h : '=' ∉ cs) : split? cs = none := by
  have rest : cs.dropWhile (· != '=') = [] := by
    rw [List.dropWhile_eq_nil_iff]
    intro c member
    rw [bne_iff_ne]
    rintro rfl
    exact h member
  rw [split?, List.span_eq_takeWhile_dropWhile, rest]

/-- The texts on either side of the first equals sign, without the blanks around them. -/
def Sides (text : String) (register value : List Char) : Prop :=
  ∃ before after, text.toList = before ++ '=' :: after ∧ '=' ∉ before ∧
    Trimmed before register ∧ Trimmed after value

variable {text : String} {register value : List Char}

theorem exists_sides (h : '=' ∈ text.toList) : ∃ register value, Sides text register value := by
  obtain ⟨before, after, cut, first⟩ := List.eq_append_cons_of_mem h
  exact ⟨_, _, before, after, cut, first, trimmed_trim before, trimmed_trim after⟩

theorem parse_of_sides (h : Sides text register value) :
    parse text =
      match readHexUpTo? 0x1FF register, readHexUpTo? 0xFF value with
      | some a, some v => .ok ⟨.ofNat a, .ofNat v⟩
      | none, _ => .error (.write (.register (String.ofList register)))
      | some _, none => .error (.write (.value (String.ofList value))) := by
  obtain ⟨before, after, cut, first, left, right⟩ := h
  rw [parse, cut, split?_append first]
  obtain rfl := left.eq_trim
  obtain rfl := right.eq_trim
  rfl

theorem parse_of_notMem (h : '=' ∉ text.toList) :
    parse text = .error (.write (.notAssignment text)) := by
  rw [parse, split?_of_notMem h]

theorem parse_eq_ok_iff {w : RegisterWrite} :
    parse text = .ok w ↔ ∃ register value, Sides text register value ∧
      HexNumber register w.address.toNat ∧ w.address.toNat ≤ 0x1FF ∧
      HexNumber value w.value.toNat := by
  constructor
  · intro accepted
    by_cases cut : '=' ∈ text.toList
    · obtain ⟨register, value, sides⟩ := exists_sides cut
      rw [parse_of_sides sides] at accepted
      cases first : readHexUpTo? 0x1FF register with
      | none => simp [first] at accepted
      | some a =>
        cases second : readHexUpTo? 0xFF value with
        | none => simp [first, second] at accepted
        | some v =>
          simp only [first, second, Except.ok.injEq] at accepted
          obtain ⟨address, inBanks⟩ := readHexUpTo?_eq_some_iff.mp first
          obtain ⟨data, byte⟩ := readHexUpTo?_eq_some_iff.mp second
          have a_word : (UInt16.ofNat a).toNat = a :=
            UInt16.toNat_ofNat_of_lt' (by show _ < 65536; omega)
          have v_word : (UInt8.ofNat v).toNat = v :=
            UInt8.toNat_ofNat_of_lt' (by show _ < 256; omega)
          rw [← accepted]
          refine ⟨register, value, sides, ?_, ?_, ?_⟩
          · rwa [a_word]
          · rwa [a_word]
          · rwa [v_word]
    · rw [parse_of_notMem cut] at accepted
      cases accepted
  · rintro ⟨register, value, sides, address, inBanks, data⟩
    have byte : w.value.toNat ≤ 0xFF := Nat.le_of_lt_succ w.value.toNat_lt
    rw [parse_of_sides sides, readHexUpTo?_eq_some_iff.mpr ⟨address, inBanks⟩,
      readHexUpTo?_eq_some_iff.mpr ⟨data, byte⟩]
    simp only [UInt16.ofNat_toNat, UInt8.ofNat_toNat]

def Refuses (text detail : String) : Prop :=
  ∃ fault : WriteFault, parse text = .error (.write fault) ∧ fault.message = detail

theorem refuses_register (h : Sides text register value)
    (bad : ¬ ∃ a ≤ 0x1FF, HexNumber register a) :
    Refuses text ("bad register '" ++ String.ofList register ++ "'") := by
  refine ⟨.register (String.ofList register), ?_, rfl⟩
  rw [parse_of_sides h, readHexUpTo?_eq_none_iff.mpr bad]

theorem refuses_value (h : Sides text register value) (good : ∃ a ≤ 0x1FF, HexNumber register a)
    (bad : ¬ ∃ v ≤ 0xFF, HexNumber value v) :
    Refuses text ("bad value '" ++ String.ofList value ++ "'") := by
  obtain ⟨a, inBanks, address⟩ := good
  refine ⟨.value (String.ofList value), ?_, rfl⟩
  rw [parse_of_sides h, readHexUpTo?_eq_some_iff.mpr ⟨address, inBanks⟩,
    readHexUpTo?_eq_none_iff.mpr bad]

theorem parse_rendering {w : RegisterWrite} {before after : List Char}
    (inBanks : w.address.toNat ≤ 0x1FF) (first : Rendering w.address.toNat before)
    (second : Rendering w.value.toNat after) :
    parse (String.ofList (before ++ '=' :: after)) = .ok w := by
  obtain ⟨register, left, address⟩ := first.trimmed
  obtain ⟨value, right, data⟩ := second.trimmed
  have sides : Sides (String.ofList (before ++ '=' :: after)) register value :=
    ⟨before, after, String.toList_ofList, first.notMem, left, right⟩
  exact parse_eq_ok_iff.mpr ⟨register, value, sides, address, inBanks, data⟩

/-- A text is read as a register write exactly when its first equals sign has a number on either
side that its register or value has room for, whatever blanks there are around them. Every other
text is refused: without the sign as a whole, else by the register, else by the value. So all ways
to write a register and a value are read back. -/
theorem parse_syntax :
    (∀ text w, parse text = .ok w ↔
      ∃ register value, Sides text register value ∧ HexNumber register w.address.toNat ∧
        w.address.toNat ≤ 0x1FF ∧ HexNumber value w.value.toNat) ∧
    (∀ text, '=' ∉ text.toList → Refuses text ("'" ++ text ++ "' is not ADDR=VALUE")) ∧
    (∀ text, '=' ∈ text.toList → ∃ register value, Sides text register value) ∧
    (∀ text register value, Sides text register value →
      ((¬ ∃ a ≤ 0x1FF, HexNumber register a) →
        Refuses text ("bad register '" ++ String.ofList register ++ "'")) ∧
      ((∃ a ≤ 0x1FF, HexNumber register a) → (¬ ∃ v ≤ 0xFF, HexNumber value v) →
        Refuses text ("bad value '" ++ String.ofList value ++ "'"))) ∧
    ∀ (w : RegisterWrite) before after, w.address.toNat ≤ 0x1FF →
      Rendering w.address.toNat before → Rendering w.value.toNat after →
      parse (String.ofList (before ++ '=' :: after)) = .ok w := by
  refine ⟨fun text w => parse_eq_ok_iff, ?_, fun text => exists_sides, ?_, ?_⟩
  · intro text unsplit
    exact ⟨.notAssignment text, parse_of_notMem unsplit, rfl⟩
  · intro text register value sides
    exact ⟨refuses_register sides, refuses_value sides⟩
  · intro w before after inBanks first second
    exact parse_rendering inBanks first second

/-- Zeros, blanks and the case of letters do not count. A sign may not stand in front of the base
mark, be the value what it may, and a byte has two digits. -/
theorem parse_syntax_signs :
    parse " 0X001bD=e0\t" = .ok ⟨0x1BD, 0xE0⟩ ∧ Refuses "+0x1=g" "bad register '+0x1'" ∧
      Refuses "0x+1FF= 100 " "bad value '100'" ∧ Refuses "1b0" "'1b0' is not ADDR=VALUE" := by
  obtain ⟨-, unsplit, -, refuses, renderings⟩ := parse_syntax
  have sides (before after : List Char) (first : '=' ∉ before) :
      Sides (String.ofList (before ++ '=' :: after)) (trim before) (trim after) :=
    ⟨before, after, String.toList_ofList, first, trimmed_trim before, trimmed_trim after⟩
  have address : Rendering 0x1BD " 0X001bD".toList :=
    ⟨[' '], ['0', 'X'], 2, ['1', 'b', 'D'], [], by decide, List.forall_mem_singleton.mpr rfl,
      by decide, by decide, List.forall_mem_nil _⟩
  have data : Rendering 0xE0 "e0\t".toList :=
    ⟨[], [], 0, ['e', '0'], ['\t'], by decide, List.forall_mem_nil _, by decide, by decide,
      List.forall_mem_singleton.mpr rfl⟩
  have swapped := refuses _ _ _ (sides ['+', '0', 'x', '1'] ['g'] (by decide))
  have large := refuses _ _ _ (sides "0x+1FF".toList " 100 ".toList (by decide))
  refine ⟨renderings ⟨0x1BD, 0xE0⟩ _ _ (by decide) address data, ?_, ?_, unsplit "1b0" (by decide)⟩
  · exact swapped.1 (readHexUpTo?_eq_none_iff.mp (by decide))
  · exact large.2 ⟨0x1FF, by decide, readHex?_eq_some_iff.mp (by decide)⟩
      (readHexUpTo?_eq_none_iff.mp (by decide))

end RegisterWrite

end Ymf262
