import Facade.HostType.Basic

/-! The symbols of a facade. Packages, objects and classes contain symbols, in the order in
which these were first met, and keep an index of them. -/
namespace Facade

structure TypeParam where
  name : String
  bound : Option HostType := none
  deriving DecidableEq

structure Param where
  name : String
  type : HostType := .any
  optional : Bool := false
  deriving DecidableEq

structure Method where
  name : String
  typeParams : List TypeParam := []
  params : List Param := []
  result : HostType := .dynamic
  bracket : Bool := false
  deriving DecidableEq

namespace Method

def constructorName : String := "<init>"
def applyName : String := "apply"
def updateName : String := "update"

/-- The host language overloads neither on parameter names nor on results. -/
structure Overload where
  name : String
  bracket : Bool
  typeParams : List TypeParam
  params : List (HostType × Bool)
  deriving DecidableEq

/-- Two methods with the same overload cannot be declared side by side. -/
def overload (m : Method) : Overload :=
  ⟨m.name, m.bracket, m.typeParams, m.params.map fun p => (p.type, p.optional)⟩

end Method

/-- A class starts as a trait and stops being one when it gets a constructor. -/
structure ClassHead where
  name : String
  isTrait : Bool := true
  typeParams : List TypeParam := []
  parents : List HostType := []
  deriving DecidableEq

inductive Kind where
  | package
  | object
  | classOrTrait
  deriving DecidableEq

/-- Containers of different kinds may share a name. -/
structure Key where
  kind : Kind
  name : String
  deriving DecidableEq

inductive Head where
  | package (name : String)
  | object (name : String)
  | classOrTrait (info : ClassHead)
  deriving DecidableEq

def Head.key : Head → Key
  | .package name => ⟨.package, name⟩
  | .object name => ⟨.object, name⟩
  | .classOrTrait info => ⟨.classOrTrait, info.name⟩

def Head.fresh : Key → Head
  | ⟨.package, name⟩ => .package name
  | ⟨.object, name⟩ => .object name
  | ⟨.classOrTrait, name⟩ => .classOrTrait { name }

/-- A class and an object of one name in one container are each other's companion. -/
def Key.companion? : Key → Option Key
  | ⟨.package, _⟩ => none
  | ⟨.object, name⟩ => some ⟨.classOrTrait, name⟩
  | ⟨.classOrTrait, name⟩ => some ⟨.object, name⟩

/-- What the members of a container are looked up by: the positions of its containers and of
its fields, and the overloads that are taken. -/
structure Index where
  containers : List (Key × Nat) := []
  fields : List (String × Nat) := []
  overloads : List Method.Overload := []
  deriving DecidableEq

mutual

inductive Symbol where
  | comment (text : String)
  | field (name : String) (type : HostType)
  | method (method : Method)
  | container (container : Container)

/-- The companion is a sibling, and so its key names it. -/
structure Container where
  head : Head
  members : List Symbol
  index : Index
  companion : Option Key

end

namespace Container

def key (c : Container) : Key := c.head.key

def kind (c : Container) : Kind := c.key.kind

def name (c : Container) : String := c.key.name

def fresh (k : Key) : Container where
  head := .fresh k
  members := []
  index := {}
  companion := none

/-- The root is the package without a name. -/
def root : Container := fresh ⟨.package, ""⟩

def isPackage (c : Container) : Bool := c.kind == .package

/-- What holds of a container if it holds of its children holds of every container. -/
theorem induct {motive : Container → Prop}
    (step : ∀ c : Container, (∀ d, .container d ∈ c.members → motive d) → motive c)
    (c : Container) : motive c :=
  step c fun d member =>
    have smaller : sizeOf d < sizeOf c := by
      have inside := List.sizeOf_lt_of_mem member
      obtain ⟨head, members, index, companion⟩ := c
      simp only [Container.mk.sizeOf_spec, Symbol.container.sizeOf_spec] at inside ⊢
      omega
    induct step d
termination_by sizeOf c

end Container

namespace Symbol

def fieldName? : Symbol → Option String
  | .field name _ => some name
  | _ => none

def method? : Symbol → Option Method
  | .method m => some m
  | _ => none

def container? : Symbol → Option Container
  | .container c => some c
  | _ => none

def isContainer (s : Symbol) : Bool := s.container?.isSome

end Symbol

end Facade
