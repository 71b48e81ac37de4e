import Ymf262.Text.Numeral

/-! Why an input is refused. Register writes themselves never fail. -/
namespace Ymf262

/-- What is wrong with a register write given as text; the text is what was found. -/
inductive WriteFault where
  | notAssignment (text : String)
  | register (text : String)
  | value (text : String)
  deriving DecidableEq

inductive FileFault where
  | missing
  | denied
  /-- A name within the path is a file. -/
  | notDirectory
  | directory
  | nameTooLong
  /-- A path cannot hold the character zero. -/
  | zeroByte
  | other (text : String)
  deriving DecidableEq

inductive Error where
  /-- The channel is not the primary of a pair. -/
  | pair (channel : Nat)
  /-- A register log ends inside a record. -/
  | truncated (offset : Nat)
  /-- A chunk declares more bytes than follow. -/
  | length (declared available : Nat)
  | write (fault : WriteFault)
  | file (fault : FileFault)
  deriving DecidableEq

open Text

def WriteFault.message : WriteFault → String
  | notAssignment text => "'" ++ text ++ "' is not ADDR=VALUE"
  | register text => "bad register '" ++ text ++ "'"
  | value text => "bad value '" ++ text ++ "'"

def FileFault.message : FileFault → String
  | missing => "No such file or directory (os error 2)"
  | denied => "Permission denied (os error 13)"
  | notDirectory => "Not a directory (os error 20)"
  | directory => "Is a directory (os error 21)"
  | nameTooLong => "File name too long (os error 36)"
  | zeroByte => "file name contained an unexpected NUL byte"
  | other text => text

def Error.message : Error → String
  | pair channel => "channel " ++ decimal channel ++ " cannot start a 4-op channel"
  | truncated offset => "truncated IMF record at offset " ++ decimal offset
  | length declared available =>
    "IMF chunk declares " ++ decimal declared ++ " bytes, only " ++ decimal available ++
      " available"
  | write fault => "invalid register write: " ++ fault.message
  | file fault => "IO error: " ++ fault.message

end Ymf262
