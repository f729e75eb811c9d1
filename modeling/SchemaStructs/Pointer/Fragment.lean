import SchemaStructs.Pointer

namespace SchemaStructs

namespace Segment

def escapeChar (c : Char) : List Char :=
  if c = '~' then ['~', '0'] else if c = '/' then ['~', '1'] else [c]

def escape (name : List Char) : List Char := name.flatMap escapeChar

def replaceTilde (d new : Char) : List Char → List Char
  | '~' :: c :: cs =>
    if c = d then new :: replaceTilde d new cs else '~' :: replaceTilde d new (c :: cs)
  | c :: cs => c :: replaceTilde d new cs
  | [] => []

/-- Undoes `escape`: first `~1`, then `~0`, so that no `~` set free is read again. -/
def unescape (token : List Char) : List Char :=
  replaceTilde '0' '~' (replaceTilde '1' '/' token)

def fragment : Segment → List Char
  | definition name => "/definitions/".toList ++ escape name.toList
  | property name => "/properties/".toList ++ escape name.toList
  | items => "/items".toList
  | additional => "/additionalProperties".toList

end Segment

namespace Pointer

open Segment (unescape)

def fragment (p : Pointer) : List Char := p.flatMap Segment.fragment

def text (p : Pointer) : String := String.ofList ('#' :: p.fragment)

def tokens : List Char → List (List Char)
  | [] => [[]]
  | c :: cs =>
    if c = '/' then [] :: tokens cs
    else
      match tokens cs with
      | [] => [[c]]
      | t :: ts => (c :: t) :: ts

/-- Reads segments off tokens. `definitions` and `$defs` are two spellings of one step, and each
takes the next token for its name, as `properties` does. -/
def ofTokens? : List (List Char) → Option Pointer
  | [] => some []
  | t :: ts =>
    if t = "items".toList then (ofTokens? ts).map (.items :: ·)
    else if t = "additionalProperties".toList then (ofTokens? ts).map (.additional :: ·)
    else
      match ts with
      | [] => none
      | name :: rest =>
        let name := String.ofList (unescape name)
        if t = "properties".toList then (ofTokens? rest).map (.property name :: ·)
        else if t = "definitions".toList ∨ t = "$defs".toList then
          (ofTokens? rest).map (.definition name :: ·)
        else none

/-- Reads what follows the `#` of a reference. Nothing and a lone `/` both mean the root. -/
def ofFragment? : List Char → Option Pointer
  | [] => some root
  | ['/'] => some root
  | c :: cs => if c = '/' then ofTokens? (tokens cs) else none

end Pointer

end SchemaStructs
