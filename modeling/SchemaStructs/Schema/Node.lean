import SchemaStructs.Dict.Entries
import SchemaStructs.Pointer

namespace SchemaStructs

inductive TypeKeyword where
  | single (name : String)
  | multiple (names : List String)
  deriving DecidableEq

/-- The name that counts. Of several it is the first one other than `null`. -/
def TypeKeyword.effective : TypeKeyword → String
  | single name => name
  | multiple names => ((names.find? (· != "null")).or names.head?).getD ""

/-- The keywords of a schema node that hold no schema themselves. -/
structure Head where
  title : Option String := none
  description : Option String := none
  id : Option String := none
  metaSchema : Option String := none
  type : Option TypeKeyword := none
  untypedExtra : Option Bool := none
  reference : Option String := none
  required : List String := []
  deriving DecidableEq

inductive Node where
  | mk (head : Head) (children : List (Segment × Node))

namespace Node

def head : Node → Head
  | mk head _ => head

def children : Node → Entries Segment Node
  | mk _ children => children

mutual

def decEq : (a b : Node) → Decidable (a = b)
  | mk h cs, mk h' cs' =>
    if hh : h = h' then
      match decEqChildren cs cs' with
      | isTrue hcs => isTrue (by rw [hh, hcs])
      | isFalse hcs => isFalse (by simp [hcs])
    else isFalse (by simp [hh])

def decEqChildren : (a b : List (Segment × Node)) → Decidable (a = b)
  | [], [] => isTrue rfl
  | [], _ :: _ => isFalse (by simp)
  | _ :: _, [] => isFalse (by simp)
  | (s, n) :: cs, (s', n') :: cs' =>
    if hs : s = s' then
      match decEq n n', decEqChildren cs cs' with
      | isTrue hn, isTrue hcs => isTrue (by rw [hs, hn, hcs])
      | isFalse hn, _ => isFalse (by simp [hn])
      | _, isFalse hcs => isFalse (by simp [hcs])
    else isFalse (by simp [hs])

end

instance : DecidableEq Node := decEq

def child? (n : Node) (s : Segment) : Option Node := Entries.get? s n.children

def lookup (n : Node) : Pointer → Option Node
  | [] => some n
  | s :: p => (n.child? s).bind fun m => m.lookup p

def property? : Segment × Node → Option (String × Node)
  | (.property name, n) => some (name, n)
  | _ => none

def definition? : Segment × Node → Option (String × Node)
  | (.definition name, n) => some (name, n)
  | _ => none

def properties (n : Node) : List (String × Node) := n.children.filterMap property?

def definitions (n : Node) : List (String × Node) := n.children.filterMap definition?

def items? (n : Node) : Option Node := n.child? .items

def extra? (n : Node) : Option Node := n.child? .additional

def typeName (n : Node) : String := (n.head.type.map TypeKeyword.effective).getD ""

def isRequired (n : Node) (name : String) : Bool := n.head.required.contains name

mutual

def size : Node → Nat
  | mk _ children => 1 + sizeChildren children

def sizeChildren : List (Segment × Node) → Nat
  | [] => 0
  | (_, n) :: cs => n.size + sizeChildren cs

end

mutual

def index : Node → List Pointer
  | mk _ children => indexChildren children

def indexChildren : List (Segment × Node) → List Pointer
  | [] => []
  | (s, n) :: cs =>
    (match s with
      | .definition _ => [[s]]
      | _ => []) ++ n.index.map (s :: ·) ++ indexChildren cs

end

mutual

def unnamedDefinition? : Node → Option Pointer
  | mk _ children => unnamedInChildren? children

def unnamedInChildren? : List (Segment × Node) → Option Pointer
  | [] => none
  | (s, n) :: cs =>
    if s = .definition "" then some []
    else (n.unnamedDefinition?.map (s :: ·)).or (unnamedInChildren? cs)

end

mutual

/-- Every node lists its children by ascending step, and has a boolean or a schema for extra
properties, never both. Two such nodes are equal as soon as the same pointers lead to the same
keywords. -/
def Canonical : Node → Prop
  | mk head children =>
    Entries.Ascending children ∧
      (head.untypedExtra.isSome → Entries.get? .additional children = none) ∧
      CanonicalChildren children

def CanonicalChildren : List (Segment × Node) → Prop
  | [] => True
  | (_, n) :: cs => n.Canonical ∧ CanonicalChildren cs

end

theorem canonicalChildren_iff {cs : List (Segment × Node)} :
    CanonicalChildren cs ↔ ∀ e ∈ cs, e.2.Canonical := by
  induction cs with
  | nil => simp [CanonicalChildren]
  | cons e cs ih => simp [CanonicalChildren, ih]

theorem canonical_mk {head : Head} {children : List (Segment × Node)} :
    (mk head children).Canonical ↔
      Entries.Ascending children ∧
        (head.untypedExtra.isSome → Entries.get? .additional children = none) ∧
        ∀ e ∈ children, e.2.Canonical := by
  rw [Canonical, canonicalChildren_iff]

@[simp] theorem lookup_nil (n : Node) : n.lookup [] = some n := rfl

theorem lookup_cons (n : Node) (s : Segment) (p : Pointer) :
    n.lookup (s :: p) = (n.child? s).bind fun m => m.lookup p := rfl

theorem lookup_append (n : Node) (p q : Pointer) :
    n.lookup (p ++ q) = (n.lookup p).bind fun m => m.lookup q := by
  induction p generalizing n with
  | nil => rfl
  | cons s p ih =>
    rw [List.cons_append, lookup_cons, lookup_cons, Option.bind_assoc]
    congr 1
    funext m
    exact ih m

end Node

structure Schema where
  node : Node
  canonical : node.Canonical

instance : DecidableEq Schema := fun a b =>
  if h : a.node = b.node then
    .isTrue (by cases a; cases b; cases h; rfl)
  else
    .isFalse fun hab => h (congrArg Schema.node hab)

def Schema.blank : Schema := ⟨.mk {} [], Entries.ascending_nil, fun _ => rfl, trivial⟩

end SchemaStructs
