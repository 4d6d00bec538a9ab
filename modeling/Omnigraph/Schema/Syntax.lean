import Omnigraph.Lib.Quoted
import Omnigraph.Lib.Sorted
import Omnigraph.Compiler.Syntax

/-!
# Schemas

The syntax tree of a schema file, and the shape it is compiled to. A shape has no identities and no
source order: its lists are sorted, and what an interface contributes to a node is recorded with
the property it contributes.
-/

namespace Omnigraph.Schema

open Compiler (PropType ScalarType)

/-! ### Errors -/

/-- Errors of the schema compiler and of identity resolution. -/
inductive SchemaError
  | parse (message : String)
  | catalog (message : String)
  | invalidDomain (message : String)
  | zeroId (entity : String) (value : ℕ)
  | allocatorExhausted
  | invalidIr (message : String)
  | resolution (message : String)

abbrev Result (α : Type) := Except SchemaError α

/-- Fail with `e` unless `c` holds. -/
def ensure (c : Prop) [Decidable c] (e : SchemaError) : Result Unit :=
  if c then .ok () else .error e

variable {c : Prop} {e : SchemaError}

lemma ensure_eq_ok_iff [Decidable c] {u : Unit} : ensure c e = .ok u ↔ c := by
  unfold ensure
  split_ifs with h <;> simp [h]

lemma ensure_ok [Decidable c] (h : c) : ensure c e = .ok () :=
  ensure_eq_ok_iff.mpr h

/-! ### Annotations and constraints -/

/-- `@name(value, key="...")`. The keyword arguments are sorted by key. -/
structure Annotation where
  name : String
  value : Option String
  kwargs : List (String × String)
  deriving DecidableEq

/-- A bound of a range. A float is the text it is printed with: it is never NaN. -/
inductive ConstraintBound
  | integer (n : ℤ)
  | float (text : String)
  deriving DecidableEq, Repr

inductive Constraint
  | key (columns : List String)
  | unique (columns : List String)
  | index (columns : List String)
  | range (property : String) (min max : Option ConstraintBound)
  | check (property : String) (pattern : String)
  deriving DecidableEq

/-- The columns a constraint names. -/
def Constraint.columns : Constraint → List String
  | .key columns | .unique columns | .index columns => columns
  | .range property _ _ | .check property _ => [property]

/-- How many edges a source may have: `@card(min..max)`. -/
structure Cardinality where
  min : ℕ
  max : Option ℕ

def Cardinality.default : Cardinality := ⟨0, none⟩

/-- Equality of bounds, where the two zeros are equal. -/
def ConstraintBound.same : ConstraintBound → ConstraintBound → Bool
  | .integer n, .integer m => n = m
  | .float s, .float t => s = t || ((s = "0.0" || s = "-0.0") && (t = "0.0" || t = "-0.0"))
  | _, _ => false

def sameBound : Option ConstraintBound → Option ConstraintBound → Bool
  | none, none => true
  | some a, some b => a.same b
  | _, _ => false

/-- Equality of constraints as the source compares them. -/
def Constraint.same : Constraint → Constraint → Bool
  | .range p min max, .range p' min' max' => p = p' && sameBound min min' && sameBound max max'
  | a, b => a = b

lemma ConstraintBound.same_refl (a : ConstraintBound) : a.same a = true := by
  cases a <;> simp [ConstraintBound.same]

lemma sameBound_refl (a : Option ConstraintBound) : sameBound a a = true := by
  cases a with
  | none => rfl
  | some a => exact a.same_refl

lemma Constraint.same_refl (c : Constraint) : c.same c = true := by
  cases c <;> simp [Constraint.same, sameBound_refl]

/-- White space, as `str::trim` removes it. -/
def isWhiteSpace (c : Char) : Bool :=
  (9 ≤ c.toNat && c.toNat ≤ 13) || c.toNat = 0x20 || c.toNat = 0x85 || c.toNat = 0xA0 ||
    c.toNat = 0x1680 || (0x2000 ≤ c.toNat && c.toNat ≤ 0x200A) || c.toNat = 0x2028 ||
    c.toNat = 0x2029 || c.toNat = 0x202F || c.toNat = 0x205F || c.toNat = 0x3000

/-- Nothing is left of the text after trimming. -/
def isBlank (s : String) : Bool := s.toList.all isWhiteSpace

/-- The hint of a single well-formed `@rename_from`. -/
def renameFromAnnotation (annotations : List Annotation) (target : String) :
    Result (Option String) :=
  match annotations.filter (fun a => a.name = "rename_from") with
  | [] => .ok none
  | [a] =>
    match a.value.filter (fun value => !isBlank value) with
    | none => .error (.parse
        s!"@rename_from on {target} requires exactly one non-empty positional value")
    | some value =>
      if a.kwargs ≠ [] then
        .error (.parse s!"@rename_from on {target} does not accept keyword arguments")
      else .ok (some value)
  | _ => .error (.parse s!"{target} declares @rename_from multiple times")

/-! ### Declarations -/

structure PropDecl where
  name : String
  propType : PropType
  annotations : List Annotation

structure InterfaceDecl where
  name : String
  properties : List PropDecl

/-- A property of an interface that a node takes over. -/
structure InterfacePropertyOrigin where
  interfaceName : String
  propertyName : String
  deriving DecidableEq

/-- Where a property of a node comes from. -/
structure NodePropertyOrigin where
  declaredDirectly : Bool
  interfaceProperties : List InterfacePropertyOrigin

/-- A node type. `constraints` includes those of properties taken over from interfaces,
`sourceConstraints` does not. -/
structure NodeDecl where
  name : String
  annotations : List Annotation
  implements : List String
  properties : List PropDecl
  constraints : List Constraint
  sourceConstraints : List Constraint
  propertyOrigins : HashMap String NodePropertyOrigin

structure EdgeDecl where
  name : String
  fromType : String
  toType : String
  cardinality : Cardinality
  annotations : List Annotation
  properties : List PropDecl
  constraints : List Constraint

inductive SchemaDecl
  | interface (d : InterfaceDecl)
  | node (d : NodeDecl)
  | edge (d : EdgeDecl)

structure SchemaFile where
  declarations : List SchemaDecl

def SchemaDecl.interface? : SchemaDecl → Option InterfaceDecl
  | .interface d => some d
  | _ => none

def SchemaDecl.node? : SchemaDecl → Option NodeDecl
  | .node d => some d
  | _ => none

def SchemaDecl.edge? : SchemaDecl → Option EdgeDecl
  | .edge d => some d
  | _ => none

namespace SchemaFile

def interfaces (schema : SchemaFile) : List InterfaceDecl :=
  schema.declarations.filterMap SchemaDecl.interface?

def nodes (schema : SchemaFile) : List NodeDecl := schema.declarations.filterMap SchemaDecl.node?

def edges (schema : SchemaFile) : List EdgeDecl := schema.declarations.filterMap SchemaDecl.edge?

end SchemaFile

/-! ### Shapes -/

/-- A constraint written at a property. -/
inductive PropertyConstraintShape
  | key
  | unique
  | index
  deriving DecidableEq

def PropertyConstraintShape.rank : PropertyConstraintShape → ℕ
  | key => 0
  | unique => 1
  | index => 2

lemma PropertyConstraintShape.rank_injective : Function.Injective rank := by
  intro a b h
  cases a <;> cases b <;> first | rfl | cases h

structure ShapePropertyRef where
  ownerName : String
  propertyName : String
  deriving DecidableEq

/-- The order of references to properties. -/
def ShapePropertyRef.sortKey (r : ShapePropertyRef) : String ×ₗ String :=
  toLex (r.ownerName, r.propertyName)

lemma ShapePropertyRef.sortKey_injective : Function.Injective sortKey := by
  rintro ⟨a, b⟩ ⟨a', b'⟩ h
  have h := toLex.injective h
  injection h with h1 h2
  subst h1 h2
  rfl

structure EmbedSourceShape where
  propertyName : String
  model : Option String
  deriving DecidableEq

structure PropertyShape where
  name : String
  renameFrom : Option String
  propType : PropType
  annotations : List Annotation
  propertyConstraints : List PropertyConstraintShape
  embedSource : Option EmbedSourceShape
  declaredDirectly : Bool
  satisfiesInterfaceProperties : List ShapePropertyRef
  deriving DecidableEq

structure InterfaceShape where
  name : String
  properties : List PropertyShape

structure NodeShape where
  name : String
  renameFrom : Option String
  annotations : List Annotation
  implements : List String
  properties : List PropertyShape
  constraints : List Constraint

structure EdgeShape where
  name : String
  renameFrom : Option String
  fromType : String
  toType : String
  cardinality : Cardinality
  annotations : List Annotation
  properties : List PropertyShape
  constraints : List Constraint

structure SchemaShape where
  interfaces : List InterfaceShape
  nodes : List NodeShape
  edges : List EdgeShape

/-! ### Without rename hints -/

def PropertyShape.cleared (p : PropertyShape) : PropertyShape := { p with renameFrom := none }

/-! ### Sort keys -/

/-- Keyword arguments as JSON members. -/
def kwargsJson : List (String × String) → List Char
  | [] => []
  | [m] => Quoted.quote m.1 ++ ':' :: Quoted.quote m.2
  | m :: ms => Quoted.quote m.1 ++ ':' :: (Quoted.quote m.2 ++ ',' :: kwargsJson ms)

def valueJson : Option String → List Char
  | none => "null".toList
  | some value => Quoted.quote value

/-- The JSON text of an annotation; empty keyword arguments are left out. -/
def Annotation.json (a : Annotation) : String :=
  String.ofList ("\x7b\"name\":".toList ++ Quoted.quote a.name ++ ",\"value\":".toList ++
    valueJson a.value ++
    (if a.kwargs = [] then "\x7d".toList
      else ",\"kwargs\":\x7b".toList ++ kwargsJson a.kwargs ++ "\x7d\x7d".toList))

/-- The debug text of a bound. -/
def boundText : Option ConstraintBound → String
  | none => "None"
  | some (.integer n) => s!"Some(Integer({n}))"
  | some (.float text) => s!"Some(Float({text}))"

def constraintSortKey : Constraint → String
  | .key columns => "key:" ++ ",".intercalate columns
  | .unique columns => "unique:" ++ ",".intercalate columns
  | .index columns => "index:" ++ ",".intercalate columns
  | .range property min max => s!"range:{property}:{boundText min}:{boundText max}"
  | .check property pattern => s!"check:{property}:{pattern}"

end Omnigraph.Schema
