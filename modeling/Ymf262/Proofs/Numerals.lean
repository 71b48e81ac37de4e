import Mathlib.Algebra.Group.Nat.Defs
import Ymf262.Text.Hex
import Ymf262.Text.Numeral

/-! Numbers as text and back. A number is written with the digits of its base and with zeros up to
a width, so that no other character comes in, and the reader of hexadecimal numbers gets back what
was written. -/
namespace Ymf262.Text

theorem digit_of_mem_toDigits {b n : Nat} (base : 1 < b) {c : Char} (h : c ∈ Nat.toDigits b n) :
    ∃ d, c = Nat.digitChar d := by
  induction n using Nat.strongRecOn with
  | ind n ih =>
    rw [Nat.toDigits_eq_if base] at h
    by_cases small : n < b
    · rw [if_pos small, List.mem_singleton] at h
      exact ⟨n, h⟩
    · rw [if_neg small, List.mem_append, List.mem_singleton] at h
      rcases h with leading | last
      · exact ih (n / b) (Nat.div_lt_self (by omega) base) leading
      · exact ⟨n % b, last⟩

theorem notMem_padded {b : Nat} (base : 1 < b) {c : Char} (other : ∀ d, Nat.digitChar d ≠ c)
    (width n : Nat) : c ∉ padLeft width '0' (Nat.toDigits b n) := by
  intro member
  rcases List.mem_append.mp member with pad | digit
  · exact other 0 (List.eq_of_mem_replicate pad).symm
  · obtain ⟨d, same⟩ := digit_of_mem_toDigits base digit
    exact other d same.symm

theorem blank_notMem_decimal (n : Nat) : ' ' ∉ (decimal n).toList := by
  rw [decimal, String.toList_ofList]
  intro member
  obtain ⟨d, same⟩ := digit_of_mem_toDigits (by decide) member
  exact Nat.digitChar_ne ' ' rfl same.symm

theorem blank_notMem_hex (width n : Nat) : ' ' ∉ (hex width n).toList := by
  rw [hex, String.toList_ofList]
  exact notMem_padded (by decide) (fun _ => Nat.digitChar_ne ' ' rfl) width n

theorem blank_notMem_binary (width n : Nat) : ' ' ∉ (binary width n).toList := by
  rw [binary, String.toList_ofList]
  exact notMem_padded (by decide) (fun _ => Nat.digitChar_ne ' ' rfl) width n

theorem length_decimal_le {n k : Nat} (wide : 0 < k) (h : n < 10 ^ k) :
    (decimal n).toList.length ≤ k := by
  rw [decimal, String.toList_ofList]
  exact (Nat.length_toDigits_le_iff (by decide) wide).mpr h

theorem length_hex {width n : Nat} (wide : 0 < width) (h : n < 16 ^ width) :
    (hex width n).toList.length = width := by
  have digits := (Nat.length_toDigits_le_iff (by decide) wide).mpr h
  rw [hex, String.toList_ofList, padLeft, List.length_append, List.length_replicate]
  omega

/-! Reading. -/

theorem hexDigit?_digitChar {d : Nat} (h : d < 16) : hexDigit? (Nat.digitChar d) = some d := by
  have all : ∀ d : Fin 16, hexDigit? (Nat.digitChar d) = some d.val := by decide
  exact all ⟨d, h⟩

theorem hexValue_append_singleton (ds : List Nat) (d : Nat) :
    hexValue (ds ++ [d]) = 16 * hexValue ds + d := by
  rw [hexValue, List.foldl_append]
  rfl

theorem hexValue_pad (k : Nat) (ds : List Nat) :
    hexValue (List.replicate k 0 ++ ds) = hexValue ds := by
  induction k with
  | zero => rfl
  | succ k ih => exact ih

theorem mapM_hexDigit?_toDigits (n : Nat) :
    ∃ ds, (Nat.toDigits 16 n).mapM hexDigit? = some ds ∧ hexValue ds = n := by
  induction n using Nat.strongRecOn with
  | ind n ih =>
    rw [Nat.toDigits_eq_if (by decide)]
    by_cases small : n < 16
    · refine ⟨[n], ?_, Nat.zero_add n⟩
      rw [if_pos small, List.mapM_cons, hexDigit?_digitChar small]
      rfl
    · obtain ⟨ds, read, value⟩ := ih (n / 16) (by omega)
      refine ⟨ds ++ [n % 16], ?_, ?_⟩
      · rw [if_neg small, List.mapM_append, read, List.mapM_cons,
          hexDigit?_digitChar (Nat.mod_lt n (by decide))]
        rfl
      · rw [hexValue_append_singleton, value]
        omega

theorem mapM_hexDigit?_pad (k : Nat) :
    (List.replicate k '0').mapM hexDigit? = some (List.replicate k 0) := by
  induction k with
  | zero => rfl
  | succ k ih =>
    rw [List.replicate_succ, List.mapM_cons, ih]
    rfl

/-! Digits alone carry neither a base mark nor a sign. -/

theorem unmarked_of_digits {cs : List Char} {ds : List Nat} (digits : cs.mapM hexDigit? = some ds) :
    unmarked cs = cs := by
  unfold unmarked
  split
  · cases digits
  · cases digits
  · rfl

theorem unsigned_of_digits {cs : List Char} {ds : List Nat} (digits : cs.mapM hexDigit? = some ds) :
    unsigned cs = cs := by
  unfold unsigned
  split
  · cases digits
  · rfl

theorem readHex?_of_digits {cs : List Char} {ds : List Nat} (digits : cs.mapM hexDigit? = some ds)
    (nonempty : cs ≠ []) : readHex? cs = some (hexValue ds) := by
  rw [readHex?, unmarked_of_digits digits, unsigned_of_digits digits, hexDigits?, if_neg nonempty,
    digits]
  rfl

theorem readHex?_hex (width n : Nat) : readHex? (hex width n).toList = some n := by
  obtain ⟨ds, read, value⟩ := mapM_hexDigit?_toDigits n
  have padded : (hex width n).toList.mapM hexDigit? =
      some (List.replicate (width - (Nat.toDigits 16 n).length) 0 ++ ds) := by
    rw [hex, String.toList_ofList, padLeft, List.mapM_append, mapM_hexDigit?_pad, read]
    rfl
  have nonempty : (hex width n).toList ≠ [] := by
    rw [hex, String.toList_ofList]
    exact List.append_ne_nil_of_right_ne_nil _ Nat.toDigits_ne_nil
  rw [readHex?_of_digits padded nonempty, hexValue_pad, value]

theorem readHexUpTo?_hex (width : Nat) {limit n : Nat} (h : n ≤ limit) :
    readHexUpTo? limit (hex width n).toList = some n := by
  rw [readHexUpTo?, readHex?_hex, Option.filter_some, if_pos (decide_eq_true h)]

/-! Different numbers are written differently. -/

theorem eq_of_decimal {m n : Nat} (h : decimal m = decimal n) : m = n := by
  have digits := String.ofList_injective h
  rw [← Nat.ofDigitChars_ten_toDigits (n := m), digits, Nat.ofDigitChars_ten_toDigits]

theorem eq_of_hex {width m n : Nat} (h : hex width m = hex width n) : m = n := by
  have read := readHex?_hex width m
  rw [h, readHex?_hex] at read
  exact (Option.some.inj read).symm

theorem getElem?_reverse_binary {n : Nat} (h : n < 64) {i : Nat} (digit : i < 6) :
    (binary 6 n).toList.reverse[i]? = some (if n.testBit i then '1' else '0') := by
  have all : ∀ n : Fin 64, ∀ i : Fin 6, (binary 6 n).toList.reverse[i.val]? =
      some (if n.val.testBit i then '1' else '0') := by
    decide +kernel
  exact all ⟨n, h⟩ ⟨i, digit⟩

end Ymf262.Text
