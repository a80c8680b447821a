import Facade.Import.Entry
import Facade.Symbol.Lookup

/-! Walking the body of an object type or interface. A constructor found in the body of an
object belongs to the companion class, if its result is that class applied to its own type
parameters; every other member belongs to the owner of the body. -/
namespace Facade
open Ambient (Node Signature)

/-- The owner of a body, and the container in which companions of the owner are found. -/
structure Site where
  enclosing : Path
  owner : Path

/-- How a body refers to the class that shares the owner's name, with the type parameters
which that class has by now. -/
def Container.companionReference (enclosing : Container) (name : String) : Node :=
  let info := (enclosing.find? ⟨.classOrTrait, name⟩).bind (·.classHead?)
  .named name ((info.map (·.typeParams)).getD [] |>.map fun p => .named p.name [])

/-- The reference to the companion is made at the first constructor and kept. -/
structure Walk where
  tree : Container
  notes : List Note := []
  companion : Option Node := none

namespace Walk

def enterAt (w : Walk) (path : Path) (entries : List Entry) : Walk :=
  match w.tree.get? path with
  | some c =>
      let edit := c.enterAll entries
      { w with tree := w.tree.put edit.container path, notes := w.notes ++ edit.notes }
  | none => w

/-- The companion class is made if need be, and it is no longer a trait. -/
def promote (w : Walk) (enclosing : Path) (name : String) (signature : Signature) : Walk :=
  let k : Key := ⟨.classOrTrait, name⟩
  let opened := w.tree.modifyAt enclosing (·.ensure k)
  { w with tree := opened.modifyAt (enclosing ++ [k]) (·.setTrait false) }.enterAt
    (enclosing ++ [k]) [signature.constructorEntry]

def constructor (w : Walk) (site : Site) (signature : Signature) : Walk :=
  match w.tree.get? site.enclosing, (w.tree.get? site.owner).map Container.head with
  | some enclosing, some (.object name) =>
      let reference := w.companion.getD (enclosing.companionReference name)
      let kept := { w with companion := some reference }
      if signature.result.any (·.same reference) then kept.promote site.enclosing name signature
      else kept.enterAt site.owner [.placeholder (.constructorMember signature)]
  | _, _ => w.enterAt site.owner [.placeholder (.constructorMember signature)]

def member (w : Walk) (site : Site) : Node → Walk
  | .constructorMember signature => w.constructor site signature
  | node => w.enterAt site.owner node.entries

def members (w : Walk) (site : Site) (nodes : List Node) : Walk :=
  nodes.foldl (fun w node => w.member site node) w

end Walk

/-- The notes of a walk over a body, and the tree it leaves. -/
def Container.walkBody (tree : Container) (site : Site) (nodes : List Node) : Edit :=
  let w := Walk.members { tree } site nodes
  ⟨w.tree, w.notes⟩

end Facade
