import Facade.Ambient.Reflection
import Facade.HostType.OfAmbient
import Facade.Note
import Facade.Symbol.Container
import Facade.Symbol.Title

/-! Entries are what members and declarations bring to a container. A container keeps the
first of each field name and of each overload, and whatever it does not keep is noted. -/
namespace Facade
open Ambient (Node)

inductive Entry where
  | field (name : String) (type : HostType)
  | method (method : Method)
  | specialized (name : String)
  | placeholder (node : Node)

/-- A container after a change, with the notes the change called for. -/
structure Edit where
  container : Container
  notes : List Note := []

def placeholderText (node : Node) : String := "??? " ++ node.shown

def Container.enter (c : Container) : Entry → Edit
  | .field name type =>
      match c.addField? name type with
      | some grown => ⟨grown, []⟩
      | none => ⟨c, [.secondField name c.title]⟩
  | .method m =>
      match c.addMethod? m with
      | some grown => ⟨grown, []⟩
      | none => ⟨c, [.collapsed m.name c.title]⟩
  | .specialized name => ⟨c, [.specialized name c.title]⟩
  | .placeholder node =>
      ⟨c.addComment (placeholderText node), [.placeholder c.title node.kind]⟩

theorem Container.enter_field (c : Container) (name : String) (type : HostType) :
    c.enter (.field name type) =
      if c.hasField name then ⟨c, [.secondField name c.title]⟩ else ⟨c.addField name type, []⟩ := by
  simp only [enter, addField?]
  cases c.hasField name <;> simp

theorem Container.enter_method (c : Container) (m : Method) :
    c.enter (.method m) =
      if c.hasOverload m.overload then ⟨c, [.collapsed m.name c.title]⟩
      else ⟨c.addMethod m, []⟩ := by
  simp only [enter, addMethod?]
  cases c.hasOverload m.overload <;> simp

def Container.enterAll (c : Container) : List Entry → Edit
  | [] => ⟨c, []⟩
  | entry :: entries =>
      let first := c.enter entry
      let rest := first.container.enterAll entries
      ⟨rest.container, first.notes ++ rest.notes⟩

/-- The name `apply` belongs to calls and index accessors. -/
def escapeApply (name : String) : String := if name == Method.applyName then "$apply" else name

theorem escapeApply_ne_applyName (name : String) : escapeApply name ≠ Method.applyName := by
  unfold escapeApply
  split
  · decide
  · next other => simpa using other

theorem escapeApply_ne_constructorName {name : String} (other : name ≠ Method.constructorName) :
    escapeApply name ≠ Method.constructorName := by
  unfold escapeApply
  split
  · decide
  · exact other

def TypeParam.ofAmbient (p : Ambient.TypeParam) : TypeParam :=
  { name := p.name.text, bound := p.bound.map (·.hostType .inner) }

def Param.ofAmbient (p : Ambient.Param) : Param :=
  { name := p.name, type := p.typeOrAny.hostType .inner, optional := p.optional }

end Facade

namespace Facade.Ambient

def Param.isConstant (p : Param) : Bool := p.typeOrAny.isConstant

namespace Signature

/-- A result that is left out may be anything, and so it is dynamic. -/
def method (s : Signature) (name : String) : Method where
  name
  typeParams := s.typeParams.map .ofAmbient
  params := s.params.map .ofAmbient
  result := (s.result.getD (.core "dynamic")).hostType .outer

/-- The host language has no constant types, and the general signature normally stands
beside the one specialized on a constant. -/
def entry (s : Signature) (name : String) : Entry :=
  if s.params.any (·.isConstant) then .specialized name else .method (s.method name)

/-- A constructor takes its type parameters from its class. -/
def constructorEntry (s : Signature) : Entry :=
  entry ⟨[], s.params, some (.core "void")⟩ Method.constructorName

end Signature

/-- An index signature can be read and written, and so it becomes two accessors. -/
def accessors (name : String) (index value : HostType) : List Method := [
  { name := Method.applyName, params := [{ name, type := index }], result := value,
    bracket := true },
  { name := Method.updateName, params := [{ name, type := index }, { name := "v", type := value }],
    result := .unit, bracket := true }]

/-- What a member brings to the container that its body fills. The property `prototype` is
how every object of a class is made, not something to declare. -/
def Node.entries : Node → List Entry
  | .callMember s => [s.entry Method.applyName]
  | .propertyMember name _ type =>
      if name == "prototype" then [] else [.field (escapeApply name) (type.hostType .inner)]
  | .functionMember name _ s => [s.entry (escapeApply name)]
  | .indexMember name index value =>
      (accessors name (index.hostType .inner) (value.hostType .inner)).map .method
  | node => [.placeholder node]

/-- What an entry of a member is. -/
inductive Node.Brings : Node → Entry → Prop where
  | call (s : Signature) : Brings (.callMember s) (s.entry Method.applyName)
  | property {name : String} (optional : Bool) (type : Node) : name ≠ "prototype" →
      Brings (.propertyMember name optional type)
        (.field (escapeApply name) (type.hostType .inner))
  | function (name : String) (optional : Bool) (s : Signature) :
      Brings (.functionMember name optional s) (s.entry (escapeApply name))
  | accessor {name : String} {index value : Node} {m : Method} :
      m ∈ accessors name (index.hostType .inner) (value.hostType .inner) →
      Brings (.indexMember name index value) (.method m)
  | placeholder (node : Node) : Brings node (.placeholder node)

theorem Node.brings_of_mem {node : Node} {entry : Entry} (member : entry ∈ node.entries) :
    node.Brings entry := by
  cases node with
  | callMember s =>
    obtain rfl := List.mem_singleton.mp member
    exact .call s
  | propertyMember name optional type =>
    simp only [entries] at member
    split at member
    · contradiction
    · next other =>
      obtain rfl := List.mem_singleton.mp member
      exact .property optional type (by simpa using other)
  | functionMember name optional s =>
    obtain rfl := List.mem_singleton.mp member
    exact .function name optional s
  | indexMember name index value =>
    obtain ⟨m, listed, rfl⟩ := List.mem_map.mp member
    exact .accessor listed
  | _ =>
    obtain rfl := List.mem_singleton.mp member
    exact .placeholder _

end Facade.Ambient
