/-! Reading a hexadecimal number: an optional base mark, an optional plus sign, and digits of
either case. Leading zeros do not count towards any limit. -/
namespace Ymf262.Text

def hexDigit? (c : Char) : Option Nat :=
  if '0' ≤ c ∧ c ≤ '9' then some (c.toNat - '0'.toNat)
  else if 'a' ≤ c ∧ c ≤ 'f' then some (c.toNat - 'a'.toNat + 10)
  else if 'A' ≤ c ∧ c ≤ 'F' then some (c.toNat - 'A'.toNat + 10)
  else none

def unmarked : List Char → List Char
  | '0' :: 'x' :: cs => cs
  | '0' :: 'X' :: cs => cs
  | cs => cs

def unsigned : List Char → List Char
  | '+' :: cs => cs
  | cs => cs

def hexValue (digits : List Nat) : Nat := digits.foldl (fun n d => 16 * n + d) 0

/-- At least one digit, and nothing but digits. -/
def hexDigits? (cs : List Char) : Option (List Nat) :=
  if cs = [] then none else cs.mapM hexDigit?

def readHex? (cs : List Char) : Option Nat :=
  (hexDigits? (unsigned (unmarked cs))).map hexValue

def readHexUpTo? (limit : Nat) (cs : List Char) : Option Nat :=
  (readHex? cs).filter (· ≤ limit)

end Ymf262.Text
