import Ymf262.Byte
import Ymf262.Error

/-! The files that a run can see, and how a path names one of them in a tree. A path is followed
name by name, from the root or from the working directory, and a name can only be looked up in
a directory. An empty name stands for the directory that it is found in, so a path that ends in
a slash names nothing but a directory. -/
namespace Ymf262.Dump

abbrev Files := String → Except FileFault (List Byte)

inductive Node where
  | directory
  | file (content : List Byte)
  deriving DecidableEq

/-- The names that lead from the root to a node, the last one first. -/
abbrev Location := List String

structure FileTree where
  /-- All nodes but the root. -/
  nodes : List (Location × Node)
  workingDirectory : Location
  deriving DecidableEq

namespace FileTree

def nameLimit : Nat := 255
def pathLimit : Nat := 4095

/-- The texts between the slashes. -/
def names : List Char → List (List Char)
  | [] => [[]]
  | c :: cs =>
    if c = '/' then [] :: names cs
    else
      match names cs with
      | [] => [[c]]
      | name :: rest => (c :: name) :: rest

/-- The root is its own parent and always there. -/
def node? (t : FileTree) : Location → Option Node
  | [] => some .directory
  | l => t.nodes.lookup l

def step (t : FileTree) (l : Location) (name : String) : Except FileFault Location :=
  match t.node? l with
  | none => .error .missing
  | some (.file _) => .error .notDirectory
  | some .directory =>
    if name = "" ∨ name = "." then .ok l
    else if name = ".." then .ok l.tail
    else if nameLimit < name.utf8ByteSize then .error .nameTooLong
    else if (t.node? (name :: l)).isSome then .ok (name :: l)
    else .error .missing

def start (t : FileTree) (path : List Char) : Location :=
  if path.head? = some '/' then [] else t.workingDirectory

def follow (t : FileTree) (path : List Char) : Except FileFault Location :=
  ((names path).map String.ofList).foldlM t.step (t.start path)

def content (t : FileTree) (l : Location) : Except FileFault (List Byte) :=
  match t.node? l with
  | none => .error .missing
  | some .directory => .error .directory
  | some (.file content) => .ok content

/-- Faults of the path as a whole come before those of its names. -/
def read (t : FileTree) : Files := fun path =>
  if '\x00' ∈ path.toList then .error .zeroByte
  else if path.isEmpty then .error .missing
  else if pathLimit < path.utf8ByteSize then .error .nameTooLong
  else do t.content (← t.follow path.toList)

end FileTree

end Ymf262.Dump
