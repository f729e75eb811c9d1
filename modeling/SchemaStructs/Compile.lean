import SchemaStructs.Document.Load
import SchemaStructs.Synthesis

namespace SchemaStructs

structure Outcome (ε α : Type) where
  log : List Event
  result : Except ε α

def repeatedId? (seen : List String) : List Document → Option String
  | [] => none
  | d :: ds =>
    if d.id.isEmpty then repeatedId? seen ds
    else if seen.contains d.id then some d.id
    else repeatedId? (d.id :: seen) ds

def synthesizeRoots (job : Job) : Synth Unit :=
  (List.range job.documents.length).forM fun i => do
    let _ ← Synthesis.synthesizeRoot job i

def compile (options : Options) (documents : List Document) : Outcome CompileError StructMap :=
  match repeatedId? [] documents with
  | some id => ⟨[], .error (.duplicateDocument id)⟩
  | none =>
    match synthesizeRoots ⟨documents, options⟩ (Synthesis.start options) with
    | (.error e, s) => ⟨s.log, .error e⟩
    | (.ok _, s) =>
      let structs := s.registry.structs
      let definitions := documents.foldr (fun d n => d.definitions.length + n) 0
      ⟨s.log ++ [.compiled documents.length definitions structs.size], .ok structs⟩

inductive Failure where
  | load (error : LoadError)
  | compile (error : CompileError)
  deriving DecidableEq

def Failure.message : Failure → String
  | load error => LoadError.compileMessage error.message
  | compile error => error.message

def compileLoaded (documents : List (Except LoadError Document)) : Outcome Failure StructMap :=
  match documents.mapM id with
  | .error e => ⟨[], .error (.load e)⟩
  | .ok documents =>
    let outcome := compile {} documents
    ⟨outcome.log, outcome.result.mapError .compile⟩

def compileTexts (sources : List (String × String)) : Outcome Failure StructMap :=
  compileLoaded (sources.map fun s => Document.ofText s.1 s.2)

def compileFiles (files : List (String × FileContent)) : Outcome Failure StructMap :=
  compileLoaded (files.map fun f => Document.ofFile f.1 f.2)

end SchemaStructs
