import Facade.Import.Body

/-! Declarations decide which container their content lands in. Declarations of one name
merge: a namespace may be opened many times, an interface declared in several pieces, and a
variable of an object type becomes the companion of the class that has its name. -/
namespace Facade
open Ambient (Node TypeName)

/-- A misnested namespace ends the work, and what was done before it stays. -/
structure Outcome extends Edit where
  fault : Option Misnested := none

namespace Container

/-- The members of a body go into the container under a key, which is made if need be. -/
def fill (c : Container) (k : Key) (members : List Node) : Edit :=
  (c.ensure k).walkBody ⟨[], [k]⟩ members

def declareInterface (c : Container) (name : String) (typeParams : List TypeParam)
    (parents : List HostType) (members : List Node) : Edit :=
  let k : Key := ⟨.classOrTrait, name⟩
  let extended := (c.ensure k).modifyAt [k] fun found =>
    (found.addParents parents).addTypeParams typeParams
  extended.walkBody ⟨[], [k]⟩ members

mutual

def declare (c : Container) : Node → Outcome
  | .moduleDecl name members =>
      if c.isPackage then
        let k : Key := ⟨.package, name⟩
        let opened := c.ensure k
        match opened.find? k with
        | some package =>
            let inner := declareAll package members
            { inner with container := opened.replace k inner.container }
        | none => { container := opened }
      else { container := c, notes := [.misnested name c.title], fault := some ⟨name, c.title⟩ }
  | .varDecl name type =>
      match type with
      | some (.objectType members) => { toEdit := c.fill ⟨.object, name⟩ members }
      | some type => { toEdit := c.enter (.field name (type.hostType .outer)) }
      | none => { toEdit := c.enter (.field name .dynamic) }
  | .typeDecl name type =>
      match type with
      | .objectType members => { toEdit := c.fill ⟨.classOrTrait, name.text⟩ members }
      | _ => { toEdit := c.enter (.placeholder (.typeDecl name type)) }
  | .interfaceDecl name typeParams parents members =>
      { toEdit := c.declareInterface name.text (typeParams.map .ofAmbient) (hostTypes parents)
          members }
  | .functionDecl name signature => { toEdit := c.enter (signature.entry name) }
  | node => { toEdit := c.enter (.placeholder node) }

def declareAll (c : Container) : List Node → Outcome
  | [] => { container := c }
  | node :: nodes =>
      let first := c.declare node
      match first.fault with
      | some _ => first
      | none =>
          let rest := declareAll first.container nodes
          { rest with notes := first.notes ++ rest.notes }

end

end Container

/-- What a declaration without a body brings to the container it stands in. -/
def Ambient.Node.single? : Node → Option Entry
  | .moduleDecl _ _ => none
  | .varDecl name type =>
      match type with
      | some (.objectType _) => none
      | some type => some (.field name (type.hostType .outer))
      | none => some (.field name .dynamic)
  | .typeDecl name type =>
      match type with
      | .objectType _ => none
      | _ => some (.placeholder (.typeDecl name type))
  | .interfaceDecl _ _ _ _ => none
  | .functionDecl name s => some (s.entry name)
  | node => some (.placeholder node)

/-- What the entry of a declaration without a body is. -/
inductive Ambient.Node.Stands : Node → Entry → Prop where
  | typed (name : String) (type : Node) :
      Stands (.varDecl name (some type)) (.field name (type.hostType .outer))
  | untyped (name : String) : Stands (.varDecl name none) (.field name .dynamic)
  | function (name : String) (s : Ambient.Signature) :
      Stands (.functionDecl name s) (s.entry name)
  | placeholder (node : Node) : Stands node (.placeholder node)

theorem Ambient.Node.stands_of_single {node : Node} {entry : Entry}
    (single : node.single? = some entry) : node.Stands entry := by
  cases node with
  | varDecl name type =>
    cases type with
    | none =>
      cases single
      exact .untyped name
    | some type => cases type <;> cases single <;> exact .typed name _
  | typeDecl name type => cases type <;> cases single <;> exact .placeholder _
  | functionDecl name s =>
    cases single
    exact .function name s
  | _ => cases single <;> exact .placeholder _

/-- The key under which a declaration opens a container. -/
def Ambient.Node.opened? : Node → Option Key
  | .moduleDecl name _ => some ⟨.package, name⟩
  | .varDecl name (some (.objectType _)) => some ⟨.object, name⟩
  | .typeDecl name (.objectType _) => some ⟨.classOrTrait, name.text⟩
  | .interfaceDecl name _ _ _ => some ⟨.classOrTrait, name.text⟩
  | _ => none

theorem Ambient.Node.opened?_single {node : Node} {entry : Entry}
    (single : node.single? = some entry) : node.opened? = none := by
  cases node with
  | varDecl name type =>
    cases type with
    | none => rfl
    | some type => cases type <;> first | rfl | contradiction
  | typeDecl name type => cases type <;> first | rfl | contradiction
  | moduleDecl name members | interfaceDecl name typeParams parents members => contradiction
  | _ => rfl

theorem Container.declare_single {node : Node} {entry : Entry} (single : node.single? = some entry)
    (c : Container) : c.declare node = { toEdit := c.enter entry } := by
  cases node with
  | varDecl name type =>
    cases type with
    | none => cases single; rfl
    | some type => cases type <;> cases single <;> rfl
  | typeDecl name type => cases type <;> cases single <;> rfl
  | _ => cases single <;> rfl

/-- The forms of a declaration: some open a container, and the others are single entries. -/
inductive Ambient.Node.Form : Node → Prop where
  | package (name : String) (members : List Node) : Form (.moduleDecl name members)
  | object (name : String) (members : List Node) : Form (.varDecl name (some (.objectType members)))
  | record (name : TypeName) (members : List Node) : Form (.typeDecl name (.objectType members))
  | interface (name : TypeName) (typeParams : List Ambient.TypeParam) (parents : List Node)
      (members : List Node) : Form (.interfaceDecl name typeParams parents members)
  | single {node : Node} {entry : Entry} : node.single? = some entry → Form node

theorem Ambient.Node.form (node : Node) : node.Form := by
  cases node with
  | moduleDecl name members => exact .package name members
  | varDecl name type =>
    cases type with
    | none => exact .single rfl
    | some type =>
      cases type with
      | objectType members => exact .object name members
      | _ => exact .single rfl
  | typeDecl name type =>
    cases type with
    | objectType members => exact .record name members
    | _ => exact .single rfl
  | interfaceDecl name typeParams parents members =>
    exact .interface name typeParams parents members
  | _ => exact .single rfl

theorem Ambient.Node.eq_moduleDecl {node : Node} {name : String}
    (opened : node.opened? = some ⟨.package, name⟩) :
    ∃ members, node = .moduleDecl name members := by
  cases node with
  | moduleDecl other members =>
    cases opened
    exact ⟨members, rfl⟩
  | varDecl other type =>
    cases type with
    | none => contradiction
    | some type => cases type <;> cases opened
  | typeDecl other type => cases type <;> cases opened
  | _ => cases opened

/-- An import starts from an empty root package. -/
def importTree (declarations : List Node) : Outcome := Container.root.declareAll declarations

end Facade
