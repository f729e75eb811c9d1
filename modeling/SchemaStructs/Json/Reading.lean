import SchemaStructs.Json.Fault

namespace SchemaStructs.Json

/-- What a text spells, read up to the first place where it stops being a value. Two readers share
it: one that checks what it takes in, and one that only skims. Faults of the first that the
second does not mind are kept beside the value. -/
inductive Reading where
  | null
  | bool (b : Bool)
  /-- `fits` says whether the number is in the range of double precision. -/
  | number (fits : Bool)
  | text (content : Except Fault String)
  /-- `ending` is the fault found where a comma or the closing bracket should stand. -/
  | list (elements : List Reading) (ending : Option Fault)
  | object (members : List (Except Fault String × Reading)) (ending : Option Fault)
  | fault (checked skimmed : Fault)

namespace Reading

def closed : Option Fault → Except Fault Unit
  | none => .ok ()
  | some f => .error f

mutual

def skim : Reading → Except Fault Unit
  | null | bool _ | number _ | text _ => .ok ()
  | list elements ending => do
    skimElements elements
    closed ending
  | object members ending => do
    skimMembers members
    closed ending
  | fault _ skimmed => .error skimmed

def skimElements : List Reading → Except Fault Unit
  | [] => .ok ()
  | r :: rs => do
    skim r
    skimElements rs

def skimMembers : List (Except Fault String × Reading) → Except Fault Unit
  | [] => .ok ()
  | (_, r) :: ms => do
    skim r
    skimMembers ms

end

def descend (allowed : Nat) : Except Fault Nat :=
  match allowed with
  | 0 => .error .malformed
  | n + 1 => .ok n

mutual

/-- Accepts every well formed value whose numbers are in range, whose texts are free of unpaired
surrogates, and that opens at most `allowed` lists and objects inside one another. -/
def vet (allowed : Nat) : Reading → Except Fault Unit
  | null | bool _ => .ok ()
  | number fits => if fits then .ok () else .error .malformed
  | text content => content.map fun _ => ()
  | list elements ending => do
    let inner ← descend allowed
    vetElements inner elements
    closed ending
  | object members ending => do
    let inner ← descend allowed
    vetMembers inner members
    closed ending
  | fault checked _ => .error checked

def vetElements (allowed : Nat) : List Reading → Except Fault Unit
  | [] => .ok ()
  | r :: rs => do
    vet allowed r
    vetElements allowed rs

def vetMembers (allowed : Nat) : List (Except Fault String × Reading) → Except Fault Unit
  | [] => .ok ()
  | (key, r) :: ms => do
    let _ ← key
    vet allowed r
    vetMembers allowed ms

end

/-- The fault of a value that stands where one of another form should. A scalar is read to its
end first, a list or an object is refused at its opening bracket. -/
def mismatch : Reading → Fault
  | number fits => if fits then .wrongForm else .malformed
  | text (.error f) => f
  | fault checked _ => checked
  | _ => .wrongForm

end Reading

end SchemaStructs.Json
