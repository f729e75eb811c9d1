import SchemaStructs.Text.Alphanumeric
import SchemaStructs.Text.Blank
import SchemaStructs.Text.UpperCase

namespace SchemaStructs.Naming

open Text

def isIdentifierChar (c : Char) : Bool := isAlphanumeric c || c == '_'

/-- Drops what cannot stand in an identifier. `starts` says that the next kept character begins
a run, and such a character is put in upper case. -/
def exportedFrom (starts : Bool) : List Char → List Char
  | [] => []
  | c :: cs =>
    if isIdentifierChar c then
      (if starts then upperCase c else [c]) ++ exportedFrom false cs
    else exportedFrom true cs

def exported (s : String) : String := String.ofList (exportedFrom true s.toList)

def meaningfulTitle (title : Option String) : Option String :=
  title.filter fun t => t.toList.any fun c => !isBlank c

def typeName (title : Option String) (key : String) : String :=
  let name := exported ((meaningfulTitle title).getD key)
  if name.isEmpty then "Anonymous" else name

def fieldName (key : String) : String :=
  let name := exported key
  if name.isEmpty then "Field" else name

def numbered (base : String) (n : Nat) : String := base ++ n.repr

/-- The first of `base2`, `base3`, … that is not taken. The candidates outnumber the taken names,
so one of them is free. -/
def renumbered (taken : List String) (base : String) : String :=
  let candidates := (List.range' 2 (taken.length + 1)).map (numbered base)
  (candidates.find? fun s => !taken.contains s).getD base

def unique (taken : List String) (base : String) : String :=
  if taken.contains base then renumbered taken base else base

end SchemaStructs.Naming
