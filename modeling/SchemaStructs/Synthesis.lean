import SchemaStructs.Options
import SchemaStructs.Reference
import SchemaStructs.Schema.Kind

namespace SchemaStructs

structure Job where
  documents : List Document
  options : Options := {}

namespace Job

def origin (job : Job) (l : Location) : String :=
  Reference.documentId job.documents l.document ++ l.pointer.text

def stem? (job : Job) (document : Nat) : Option String :=
  job.documents[document]?.bind Document.stem

def rootKey (job : Job) (document : Nat) : String :=
  (job.stem? document).getD job.options.rootName

def targetKey (job : Job) (l : Location) : String := l.pointer.key.getD (job.rootKey l.document)

def size (job : Job) : Nat := job.documents.foldr (fun d n => d.root.node.size + n) 0

/-- An allowance that no walk uses up. A walk opens every struct once, and between two openings it
comes to no node more than twice. -/
def allowance (job : Job) : Nat := (job.size + 1) * (2 * job.size + 3)

end Job

structure Synthesis where
  registry : Registry := {}
  /-- The targets of references that are being walked, the outermost first, each with the number
  of structs that were open when the walk entered it. -/
  inFlight : List (Location × Nat) := []
  /-- How many structs have a name and not yet their fields. -/
  openStructs : Nat := 0
  resolved : List (Location × TypeDesc) := []
  log : List Event := []

/-- Steps that may fail, and leave what is known behind also then. -/
abbrev Synth := ExceptT CompileError (StateM Synthesis)

namespace Synthesis

def start (options : Options) : Synthesis := { registry := { policy := options.policy } }

inductive Reentry where
  | enter
  | forward (name : String)
  | cycle
  deriving DecidableEq

/-- A target that is being walked can be entered again only if it is sure to end at a struct that
has its name: one opened since the walk first entered the target. A struct on the way is mentioned
by its name, where structs may be recursive. -/
def reentry (s : Synthesis) (recursive : Bool) (target : Location) : Reentry :=
  match s.inFlight.find? fun e => e.1 = target with
  | none => .enter
  | some (_, opened) =>
    match s.registry.nameOf? target with
    | some name => if recursive then .forward name else .enter
    | none => if opened < s.openStructs then .enter else .cycle

def cycleThrough (s : Synthesis) (target : Location) : List Location :=
  (s.inFlight.dropWhile fun e => e.1 ≠ target).map Prod.fst ++ [target]

def resolvedType? (s : Synthesis) (target : Location) : Option TypeDesc :=
  (s.resolved.find? fun e => e.1 = target).map Prod.snd

def note (s : Synthesis) (events : List Event) : Synthesis := { s with log := s.log ++ events }

def enter (s : Synthesis) (target : Location) : Synthesis :=
  { s with inFlight := s.inFlight ++ [(target, s.openStructs)] }

def leave (s : Synthesis) : Synthesis := { s with inFlight := s.inFlight.dropLast }

def remember (s : Synthesis) (target : Location) (type : TypeDesc) : Synthesis :=
  { s with resolved := (target, type) :: s.resolved }

/-- Runs a step inside a target, and leaves the target whether the step fails or not. -/
def within (target : Location) (step : Synth TypeDesc) : Synth TypeDesc := fun s =>
  let (result, s) := step (s.enter target)
  (result, s.leave)

variable (job : Job)

def resolve (reference : String) (document : Nat) : Synth Target := do
  let target ← (Reference.resolve job.documents reference document : Except CompileError Target)
  let name := Reference.documentId job.documents document
  modify fun s => s.note [.resolved reference name target.location]
  return target

def openStruct (node : Node) (here : Location) (key : String) : Synth String := do
  let s ← get
  let base := Naming.typeName node.head.title key
  let (name, registry, events) ←
    (s.registry.declare here base (job.origin here) (job.stem? here.document) :
      Except CompileError (String × Registry × List Event))
  set { s.note events with registry, openStructs := s.openStructs + 1 }
  return name

def closeStruct (struct : Struct) : Synth Unit :=
  modify fun s =>
    let (registry, events) := s.registry.define struct
    { s.note events with registry, openStructs := s.openStructs - 1 }

def addField (fields : Dict String Field) (base jsonName : String) (type : TypeDesc)
    (required : Bool) (description : Option String) : Dict String Field :=
  let name := Naming.unique fields.keys base
  fields.insert name { name, jsonName, type, required, description }

section
variable (walk : Node → Location → String → Synth TypeDesc)

def reference (text : String) (here : Location) : Synth TypeDesc := do
  let target ← resolve job text here.document
  let s ← get
  match s.resolvedType? target.location with
  | some type => return type
  | none =>
    match s.reentry job.options.recursive target.location with
    | .forward name => return .struct name
    | .cycle => throw (.cyclicReference ((s.cycleThrough target.location).map job.origin))
    | .enter => do
      let key := job.targetKey target.location
      let type ← within target.location (walk target.node target.location key)
      modify fun s => s.remember target.location type
      return type

def propertyFields (node : Node) (here : Location) :
    List (String × Node) → Dict String Field → Synth (Dict String Field)
  | [], fields => return fields
  | (key, property) :: rest, fields => do
    let type ← walk property (here.join (.property key)) key
    let fields := addField fields (Naming.fieldName key) key type (node.isRequired key)
      property.head.description
    propertyFields node here rest fields

def extraField (here : Location) (name : String) (extra : Option Node)
    (fields : Dict String Field) : Synth (Dict String Field) :=
  match extra with
  | none => return fields
  | some extra => do
    let type ← walk extra (here.join .additional) (name ++ "Value")
    return addField fields "AdditionalProperties" "-" (.map type) false extra.head.description

/-- A node that has its name is mentioned by it. Where structs may not be recursive, it must have
its fields too. -/
def struct (node : Node) (here : Location) (key : String) (extra : Option Node) :
    Synth TypeDesc := do
  let s ← get
  match s.registry.nameOf? here with
  | some name =>
    if !job.options.recursive && !s.registry.isDefined here then
      throw (.cyclicReference [job.origin here, job.origin here])
    else return .struct name
  | none => do
    let name ← openStruct job node here key
    let fields ← propertyFields walk node here node.properties ∅
    let fields ← extraField walk here name extra fields
    closeStruct { name, origin := job.origin here, description := node.head.description, fields }
    return .struct name

def step (node : Node) (here : Location) (key : String) : Synth TypeDesc :=
  match node.kind? with
  | none => throw (.invalidShape (job.origin here) node.typeName)
  | some (.reference text) => reference job walk text here
  | some (.primitive p) => return .primitive p
  | some .any => return .any
  | some (.array none) => return .slice .any
  | some (.array (some items)) => return .slice (← walk items (here.join .items) key)
  | some (.map none) => return .map .any
  | some (.map (some value)) => return .map (← walk value (here.join .additional) key)
  | some (.struct extra) => struct job walk node here key extra
  | some .emptyObject => struct job walk node here key none

end

def walk : Nat → Node → Location → String → Synth TypeDesc
  | 0, _, _, _ => throw .tooDeep
  | n + 1, node, here, key => step job (walk n) node here key

def synthesize (node : Node) (here : Location) (key : String) : Synth TypeDesc :=
  walk job job.allowance node here key

def synthesizeRoot (document : Nat) : Synth TypeDesc :=
  match job.documents[document]? with
  | none => throw (.unresolvedReference "#" "" .noDocument)
  | some d => synthesize job d.root.node (.root document) (job.rootKey document)

end Synthesis

end SchemaStructs
