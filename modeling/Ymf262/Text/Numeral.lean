/-! Numbers as text, in decimal, hexadecimal and binary, and text set to a width. -/
namespace Ymf262.Text

def decimal (n : Nat) : String := String.ofList (Nat.toDigits 10 n)

def padLeft (width : Nat) (fill : Char) (cs : List Char) : List Char :=
  List.replicate (width - cs.length) fill ++ cs

def padRight (width : Nat) (cs : List Char) : List Char :=
  cs ++ List.replicate (width - cs.length) ' '

/-- Lower case, with leading zeros up to the width. -/
def hex (width n : Nat) : String := String.ofList (padLeft width '0' (Nat.toDigits 16 n))

def binary (width n : Nat) : String := String.ofList (padLeft width '0' (Nat.toDigits 2 n))

def right (width : Nat) (s : String) : String := String.ofList (padLeft width ' ' s.toList)

def left (width : Nat) (s : String) : String := String.ofList (padRight width s.toList)

def onOff (b : Bool) : String := if b then "on" else "off"

end Ymf262.Text
