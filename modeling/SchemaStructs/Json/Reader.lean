import SchemaStructs.Json.Numeral
import SchemaStructs.Json.Quoted
import SchemaStructs.Json.Reading

namespace SchemaStructs.Json

namespace Reading

def isSpace (c : Char) : Bool := c == ' ' || c == '\t' || c == '\n' || c == '\r'

def skipSpace (cs : List Char) : List Char := cs.dropWhile isSpace

def stop (f : Fault) : Reading × List Char := (fault f f, [])

def readWord (word : List Char) (r : Reading) (cs : List Char) : Reading × List Char :=
  match word, cs with
  | [], cs => (r, cs)
  | _ :: _, [] => stop .endOfText
  | w :: ws, c :: cs => if w = c then readWord ws r cs else stop .malformed

/-- A number that breaks off at the end of the text is malformed to a reader that only skims. -/
def readNumber (cs : List Char) : Reading × List Char :=
  match Numeral.scan cs with
  | .ok (x, rest) => (number x.fits, rest)
  | .error [] => (fault .endOfText .malformed, [])
  | .error (_ :: _) => stop .malformed

def readText (cs : List Char) : Reading × List Char :=
  match Quoted.scan cs with
  | .closed pieces rest => (text (Quoted.content pieces), rest)
  | .broken pieces f => (fault (Quoted.firstFault pieces f) f, [])

mutual

/-- Reads one value. Every call that consumes nothing is followed by one that does, so `fuel` of
twice the length of the text is enough. -/
def readValue (fuel : Nat) (cs : List Char) : Reading × List Char :=
  match fuel with
  | 0 => stop .endOfText
  | fuel + 1 =>
    match skipSpace cs with
    | [] => stop .endOfText
    | c :: cs =>
      if c = 'n' then readWord "ull".toList null cs
      else if c = 't' then readWord "rue".toList (bool true) cs
      else if c = 'f' then readWord "alse".toList (bool false) cs
      else if c = '"' then readText cs
      else if c = '-' then readNumber cs
      else if c.isDigit then readNumber (c :: cs)
      else if c = '[' then
        match skipSpace cs with
        | [] => (list [] (some .endOfText), [])
        | d :: ds =>
          if d = ']' then (list [] none, ds)
          else
            let (elements, ending, rest) := readElements fuel (d :: ds)
            (list elements ending, rest)
      else if c = '\x7b' then
        match skipSpace cs with
        | [] => (object [] (some .endOfText), [])
        | d :: ds =>
          if d = '\x7d' then (object [] none, ds)
          else
            let (members, ending, rest) := readMembers fuel (d :: ds)
            (object members ending, rest)
      else stop .malformed

def readElements (fuel : Nat) (cs : List Char) : List Reading × Option Fault × List Char :=
  match fuel with
  | 0 => ([], some .endOfText, [])
  | fuel + 1 =>
    let (r, rest) := readValue fuel cs
    match skipSpace rest with
    | [] => ([r], some .endOfText, [])
    | d :: ds =>
      if d = ']' then ([r], none, ds)
      else if d = ',' then
        let (rs, ending, rest) := readElements fuel ds
        (r :: rs, ending, rest)
      else ([r], some .malformed, [])

def readMembers (fuel : Nat) (cs : List Char) :
    List (Except Fault String × Reading) × Option Fault × List Char :=
  match fuel with
  | 0 => ([], some .endOfText, [])
  | fuel + 1 =>
    match skipSpace cs with
    | [] => ([], some .endOfText, [])
    | c :: cs =>
      if c = '"' then
        match Quoted.scan cs with
        | .broken pieces f =>
          let checked := Quoted.firstFault pieces f
          ([(.error checked, fault checked f)], none, [])
        | .closed pieces rest =>
          let key := Quoted.content pieces
          let (r, rest) :=
            match skipSpace rest with
            | [] => stop .endOfText
            | d :: ds => if d = ':' then readValue fuel ds else stop .malformed
          match skipSpace rest with
          | [] => ([(key, r)], some .endOfText, [])
          | d :: ds =>
            if d = '\x7d' then ([(key, r)], none, ds)
            else if d = ',' then
              let (ms, ending, rest) := readMembers fuel ds
              ((key, r) :: ms, ending, rest)
            else ([(key, r)], some .malformed, [])
      else ([], some .malformed, [])

end

def ofText (cs : List Char) : Reading × List Char := readValue (2 * cs.length + 2) cs

end Reading

end SchemaStructs.Json
