import Facade.Symbol.Basic

/-! Looking up and adding the members of a container. A lookup goes through the index, and
nothing is added under a key, a field name or an overload that is already taken. -/
namespace Facade

namespace Container

def place? (c : Container) (k : Key) : Option Nat := c.index.containers.lookup k

def find? (c : Container) (k : Key) : Option Container :=
  (c.place? k).bind fun i => c.members[i]?.bind (·.container?)

def append (c : Container) (s : Symbol) : Container := { c with members := c.members ++ [s] }

/-- The member under a key gives way to another container. -/
def replace (c : Container) (k : Key) (new : Container) : Container :=
  match c.place? k with
  | some i => { c with members := c.members.set i (.container new) }
  | none => c

def modify (c : Container) (k : Key) (f : Container → Container) : Container :=
  match c.find? k with
  | some inner => c.replace k (f inner)
  | none => c

def linkTo (k : Key) (c : Container) : Container := { c with companion := some k }

/-- Two members become each other's companion. -/
def link (c : Container) (j k : Key) : Container :=
  (c.modify j (linkTo k)).modify k (linkTo j)

/-- A new container comes last. -/
def create (c : Container) (k : Key) : Container :=
  { c.append (.container (fresh k)) with
    index := { c.index with containers := c.index.containers ++ [(k, c.members.length)] } }

/-- The key of the companion, where that is already a member. -/
def partner? (c : Container) (k : Key) : Option Key :=
  k.companion?.filter fun j => (c.place? j).isSome

/-- A container that is not there yet is made, and linked to a companion that is. -/
def ensure (c : Container) (k : Key) : Container :=
  if (c.place? k).isSome then c
  else
    match c.partner? k with
    | some j => (c.create k).link j k
    | none => c.create k

def hasField (c : Container) (name : String) : Bool := (c.index.fields.lookup name).isSome

def fields (c : Container) : List Symbol := c.members.filter (·.fieldName?.isSome)

def methods (c : Container) : List Method := c.members.filterMap Symbol.method?

def methodsNamed (c : Container) (name : String) : List Method :=
  c.methods.filter (·.name == name)

def hasOverload (c : Container) (o : Method.Overload) : Bool := c.index.overloads.contains o

def addField (c : Container) (name : String) (type : HostType) : Container :=
  { c.append (.field name type) with
    index := { c.index with fields := c.index.fields ++ [(name, c.members.length)] } }

/-- The first field of a name wins. -/
def addField? (c : Container) (name : String) (type : HostType) : Option Container :=
  if c.hasField name then none else some (c.addField name type)

def addMethod (c : Container) (m : Method) : Container :=
  { c.append (.method m) with
    index := { c.index with overloads := c.index.overloads ++ [m.overload] } }

def addMethod? (c : Container) (m : Method) : Option Container :=
  if c.hasOverload m.overload then none else some (c.addMethod m)

def addComment (c : Container) (text : String) : Container := c.append (.comment text)

def modifyClass (f : ClassHead → ClassHead) (c : Container) : Container :=
  match c.head with
  | .classOrTrait info => { c with head := .classOrTrait (f info) }
  | _ => c

def setTrait (value : Bool) : Container → Container :=
  modifyClass fun info => { info with isTrait := value }

def addTypeParams (typeParams : List TypeParam) : Container → Container :=
  modifyClass fun info => { info with typeParams := info.typeParams ++ typeParams }

end Container

/-- Parents join in order, each only once. -/
def ClassHead.addParents (info : ClassHead) : List HostType → ClassHead
  | [] => info
  | parent :: parents =>
      if info.parents.contains parent then info.addParents parents
      else { info with parents := info.parents ++ [parent] }.addParents parents

/-- Nothing but the parents changes. -/
theorem ClassHead.addParents_eq (info : ClassHead) (types : List HostType) :
    info.addParents types = { info with parents := (info.addParents types).parents } := by
  induction types generalizing info with
  | nil => rfl
  | cons type types ih =>
    unfold addParents
    split
    · exact ih info
    · exact ih { info with parents := info.parents ++ [type] }

@[simp] theorem ClassHead.name_addParents (info : ClassHead) (types : List HostType) :
    (info.addParents types).name = info.name := by
  rw [addParents_eq]

@[simp] theorem ClassHead.isTrait_addParents (info : ClassHead) (types : List HostType) :
    (info.addParents types).isTrait = info.isTrait := by
  rw [addParents_eq]

@[simp] theorem ClassHead.typeParams_addParents (info : ClassHead) (types : List HostType) :
    (info.addParents types).typeParams = info.typeParams := by
  rw [addParents_eq]

def Container.addParents (parents : List HostType) : Container → Container :=
  modifyClass (·.addParents parents)

def Container.classHead? (c : Container) : Option ClassHead :=
  match c.head with
  | .classOrTrait info => some info
  | _ => none

end Facade
