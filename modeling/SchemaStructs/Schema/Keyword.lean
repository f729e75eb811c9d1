namespace SchemaStructs

inductive Keyword where
  | title
  | description
  | id
  | legacyId
  | metaSchema
  | type
  | properties
  | additional
  | items
  | reference
  | required
  | definitions
  | defs
  deriving DecidableEq

namespace Keyword

/-- All keywords in the order of their values where a schema is written as a list. -/
def all : List Keyword :=
  [title, description, id, legacyId, metaSchema, type, properties, additional, items, reference,
    required, definitions, defs]

def text : Keyword → String
  | title => "title"
  | description => "description"
  | id => "$id"
  | legacyId => "id"
  | metaSchema => "$schema"
  | type => "type"
  | properties => "properties"
  | additional => "additionalProperties"
  | items => "items"
  | reference => "$ref"
  | required => "required"
  | definitions => "definitions"
  | defs => "$defs"

def ofText? (s : String) : Option Keyword := all.find? fun k => k.text = s

end Keyword

end SchemaStructs
