import Ymf262.Error
import Ymf262.Register
import Ymf262.Text.Blank
import Ymf262.Text.Hex

/-! Register writes as text, in the form ADDR=VALUE with hexadecimal numbers. The text is cut
at its first equals sign and blanks around either number do not count. A fault of the register
is reported before one of the value. -/
namespace Ymf262.RegisterWrite
open Text

def split? (cs : List Char) : Option (List Char × List Char) :=
  match cs.span (· != '=') with
  | (before, _ :: after) => some (before, after)
  | (_, []) => none

def parse (text : String) : Except Error RegisterWrite :=
  match split? text.toList with
  | none => .error (.write (.notAssignment text))
  | some (before, after) =>
    let register := trim before
    let value := trim after
    match readHexUpTo? 0x1FF register, readHexUpTo? 0xFF value with
    | some address, some v => .ok ⟨UInt16.ofNat address, UInt8.ofNat v⟩
    | none, _ => .error (.write (.register (String.ofList register)))
    | some _, none => .error (.write (.value (String.ofList value)))

end Ymf262.RegisterWrite
