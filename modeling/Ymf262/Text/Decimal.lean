/-! Reading a natural number in decimal with an optional sign. Only zero may be negative. -/
namespace Ymf262.Text

def digit? (c : Char) : Option Nat :=
  if '0' ≤ c ∧ c ≤ '9' then some (c.toNat - '0'.toNat) else none

def decimalValue (digits : List Nat) : Nat := digits.foldl (fun n d => 10 * n + d) 0

def decimalDigits? (cs : List Char) : Option Nat :=
  if cs = [] then none else (cs.mapM digit?).map decimalValue

def readDecimalUpTo? (limit : Nat) : List Char → Option Nat
  | '+' :: cs => (decimalDigits? cs).filter (· ≤ limit)
  | '-' :: cs => (decimalDigits? cs).filter (· = 0)
  | cs => (decimalDigits? cs).filter (· ≤ limit)

end Ymf262.Text
