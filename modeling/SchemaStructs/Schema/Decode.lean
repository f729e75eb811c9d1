import SchemaStructs.Json.Reader
import SchemaStructs.Schema.Keyword
import SchemaStructs.Schema.Written

namespace SchemaStructs.Written

open Json Json.Reading

def optionalText : Reading → Except Fault (Option String)
  | .null => .ok none
  | .text content => content.map some
  | r => .error r.mismatch

def textElements : List Reading → Except Fault (List String)
  | [] => .ok []
  | .text content :: rs => do
    let s ← content
    let ss ← textElements rs
    return s :: ss
  | r :: _ => .error r.mismatch

def texts (allowed : Nat) : Reading → Except Fault (List String)
  | .list elements ending => do
    let _ ← descend allowed
    let ss ← textElements elements
    closed ending
    return ss
  | r => .error r.mismatch

/-- Whatever is wrong with a value that was vetted before, it is of the wrong form. -/
def vetted {α : Type} (result : Except Fault α) : Except Fault α :=
  result.mapError fun _ => .wrongForm

def typeKeyword (allowed : Nat) (r : Reading) : Except Fault (Option TypeKeyword) :=
  match r with
  | .null => .ok none
  | r => do
    r.vet allowed
    match r with
    | .text content => vetted (content.map fun name => some (.single name))
    | .list elements _ => vetted ((textElements elements).map fun names => some (.multiple names))
    | _ => .error .wrongForm

def assign (allowed : Nat) (w : Written) (k : Keyword) (r : Reading)
    (asSchema : Unit → Except Fault Written)
    (asTable : Unit → Except Fault (List (String × Written))) : Except Fault Written :=
  match k with
  | .title => return { w with title := ← optionalText r }
  | .description => return { w with description := ← optionalText r }
  | .id => return { w with id := ← optionalText r }
  | .legacyId => return { w with legacyId := ← optionalText r }
  | .metaSchema => return { w with metaSchema := ← optionalText r }
  | .type => return { w with type := ← typeKeyword allowed r }
  | .properties => return { w with properties := ← asTable () }
  | .additional =>
    match r with
    | .null => return { w with additional := none }
    | r => do
      r.vet allowed
      match r with
      | .bool b => return { w with additional := some (.inl b) }
      | _ => return { w with additional := some (.inr (← vetted (asSchema ()))) }
  | .items =>
    match r with
    | .null => return { w with items := none }
    | _ => return { w with items := some (← asSchema ()) }
  | .reference => return { w with reference := ← optionalText r }
  | .required => return { w with required := ← texts allowed r }
  | .definitions => return { w with definitions := ← asTable () }
  | .defs => return { w with defs := ← asTable () }

mutual

/-- A schema is an object, or a list of keyword values. `allowed` lists and objects may still be
opened inside one another. -/
def decode (allowed : Nat) : Reading → Except Fault Written
  | .list elements ending => do
    let inner ← descend allowed
    let w ← decodeElements inner Keyword.all {} elements
    closed ending
    return w
  | .object members ending => do
    let inner ← descend allowed
    let w ← decodeMembers inner [] {} members
    closed ending
    return w
  | r => .error r.mismatch

def decodeElements (allowed : Nat) (ks : List Keyword) (w : Written) :
    List Reading → Except Fault Written
  | [] => .ok w
  | r :: rs =>
    match ks with
    | [] => .error .malformed
    | k :: ks => do
      let w ← assign allowed w k r (fun _ => decode allowed r) (fun _ => decodeTable allowed r)
      decodeElements allowed ks w rs

def decodeMembers (allowed : Nat) (seen : List Keyword) (w : Written) :
    List (Except Fault String × Reading) → Except Fault Written
  | [] => .ok w
  | (key, r) :: ms => do
    let name ← key
    match Keyword.ofText? name with
    | none => do
      r.skim
      decodeMembers allowed seen w ms
    | some k =>
      if seen.contains k then .error .wrongForm
      else do
        let w ← assign allowed w k r (fun _ => decode allowed r) (fun _ => decodeTable allowed r)
        decodeMembers allowed (k :: seen) w ms

def decodeTable (allowed : Nat) : Reading → Except Fault (List (String × Written))
  | .object members ending => do
    let inner ← descend allowed
    let entries ← decodeEntries inner members
    closed ending
    return entries
  | r => .error r.mismatch

def decodeEntries (allowed : Nat) :
    List (Except Fault String × Reading) → Except Fault (List (String × Written))
  | [] => .ok []
  | (key, r) :: ms => do
    let name ← key
    let w ← decode allowed r
    let entries ← decodeEntries allowed ms
    return (name, w) :: entries

end

/-- So many lists and objects may be open at once, outside of what is skimmed. -/
def nestingLimit : Nat := 127

def ofText (text : String) : Except Fault Written := do
  let (r, rest) := Reading.ofText text.toList
  let w ← decode nestingLimit r
  if (skipSpace rest).isEmpty then return w else .error .malformed

end SchemaStructs.Written

namespace SchemaStructs.Schema

def ofText (text : String) : Except Json.Fault Schema := (Written.ofText text).map Written.schema

end SchemaStructs.Schema
