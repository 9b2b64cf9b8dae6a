import ImportSuffix.CommandLine.Argument

/-!
# Elements of a command line

What an element is depends on how many dashes it begins with.  A dash alone is a
word, and two dashes alone end the options.
-/

namespace ImportSuffix

inductive Token where
  | endOfOptions
  /-- Two dashes and a name, and what follows the first equals sign. -/
  | long (name : Bytes) (value : Option Bytes)
  /-- A dash and at least one letter. -/
  | bundle (letters : Bytes)
  | word (word : Bytes)
deriving DecidableEq, Repr

namespace Token

def dash : UInt8 := 0x2d

def equals : UInt8 := 0x3d

def cutAtEquals (text : Bytes) : Bytes × Option Bytes :=
  match text.dropWhile (· ≠ equals) with
  | [] => (text, none)
  | _ :: value => (text.takeWhile (· ≠ equals), some value)

def ofBytes (element : Bytes) : Token :=
  match element with
  | [] => word []
  | first :: rest =>
      if first ≠ dash then word element
      else
        match rest with
        | [] => word element
        | second :: more =>
            if second ≠ dash then bundle rest
            else if more = [] then endOfOptions
            else long (cutAtEquals more).1 (cutAtEquals more).2

end Token

end ImportSuffix
