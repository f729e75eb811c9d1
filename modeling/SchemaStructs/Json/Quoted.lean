import SchemaStructs.Json.Fault

namespace SchemaStructs.Json

inductive Piece where
  | char (c : Char)
  | unit (n : Nat)

/-- A quoted text after its opening quote: the pieces up to the closing quote and what follows it,
or the pieces up to the fault where it breaks off. -/
inductive Quoted where
  | closed (pieces : List Piece) (rest : List Char)
  | broken (pieces : List Piece) (fault : Fault)

namespace Quoted

def push (p : Piece) : Quoted → Quoted
  | closed ps rest => closed (p :: ps) rest
  | broken ps f => broken (p :: ps) f

def hexDigit? (c : Char) : Option Nat :=
  if 48 ≤ c.toNat ∧ c.toNat ≤ 57 then some (c.toNat - 48)
  else if 65 ≤ c.toNat ∧ c.toNat ≤ 70 then some (c.toNat - 55)
  else if 97 ≤ c.toNat ∧ c.toNat ≤ 102 then some (c.toNat - 87)
  else none

def hexUnit? (a b c d : Char) : Option Nat :=
  match hexDigit? a, hexDigit? b, hexDigit? c, hexDigit? d with
  | some a, some b, some c, some d => some (((a * 16 + b) * 16 + c) * 16 + d)
  | _, _, _, _ => none

/-- Where four digits are missing, the text counts as ended if fewer than four bytes are left. -/
def hexFault (cs : List Char) : Fault :=
  if (cs.take 4).foldr (fun c n => c.utf8Size + n) 0 < 4 then .endOfText else .malformed

def escaped? (c : Char) : Option Char :=
  if c = '"' ∨ c = '\\' ∨ c = '/' then some c
  else if c = 'b' then some '\x08'
  else if c = 'f' then some '\x0c'
  else if c = 'n' then some '\n'
  else if c = 'r' then some '\r'
  else if c = 't' then some '\t'
  else none

def scan : List Char → Quoted
  | [] => broken [] .endOfText
  | c :: cs =>
    if c = '"' then closed [] cs
    else if c.toNat < 0x20 then broken [] .malformed
    else if c = '\\' then
      match cs with
      | [] => broken [] .endOfText
      | e :: es =>
        if e = 'u' then
          match es with
          | h₁ :: h₂ :: h₃ :: h₄ :: rest =>
            match hexUnit? h₁ h₂ h₃ h₄ with
            | some n => push (.unit n) (scan rest)
            | none => broken [] (hexFault es)
          | _ => broken [] (hexFault es)
        else
          match escaped? e with
          | some x => push (.char x) (scan es)
          | none => broken [] .malformed
    else push (.char c) (scan cs)

def isHigh (n : Nat) : Bool := 0xD800 ≤ n && n ≤ 0xDBFF

def isLow (n : Nat) : Bool := 0xDC00 ≤ n && n ≤ 0xDFFF

inductive Unpaired where
  | inside
  | atEnd

/-- The characters that pieces spell, if every high surrogate has a low one right behind it and
every low one a high one in front. -/
def spell : List Piece → Except Unpaired (List Char)
  | [] => .ok []
  | .char c :: ps => (spell ps).map (c :: ·)
  | .unit n :: ps =>
    if isLow n then .error .inside
    else if isHigh n then
      match ps with
      | [] => .error .atEnd
      | .char _ :: _ => .error .inside
      | .unit m :: qs =>
        if isLow m then
          (spell qs).map (Char.ofNat ((n - 0xD800) * 0x400 + (m - 0xDC00) + 0x10000) :: ·)
        else .error .inside
    else (spell ps).map (Char.ofNat n :: ·)

def content (pieces : List Piece) : Except Fault String :=
  match spell pieces with
  | .ok cs => .ok (String.ofList cs)
  | .error _ => .error .malformed

/-- The fault that is met first where a quoted text breaks off: an unpaired surrogate before, but
not right before, the place. -/
def firstFault (pieces : List Piece) (f : Fault) : Fault :=
  match spell pieces with
  | .error .inside => .malformed
  | _ => f

end Quoted

end SchemaStructs.Json
