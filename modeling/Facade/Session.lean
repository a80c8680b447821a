import Facade.Import.Declaration
import Facade.Report

/-! Building a tree step by step. Every step changes one container, named by its path from
the root, and is answered by what it made, kept or refused. -/
namespace Facade
open Ambient (Node)

/-- A change to one container. -/
inductive Change where
  | declare (declaration : Node)
  | ensure (key : Key)
  | field (name : String) (type : HostType)
  | method (method : Method)
  | comment (text : String)
  | parents (types : List HostType)
  | typeParams (params : List TypeParam)
  | setTrait (value : Bool)

/-- Walking a body concerns the container that encloses its owner, too. -/
inductive Action where
  | change (change : Change)
  | members (enclosing : Path) (nodes : List Node)

inductive Reply where
  | done
  | made (title : String)
  | refused
  | kept (added : Bool)
  | types (texts : List String)

structure Answered extends Outcome where
  reply : Reply := .done

namespace Container

def apply (c : Container) : Change → Answered
  | .declare declaration => { toOutcome := c.declare declaration }
  | .ensure k =>
      let grown := c.ensure k
      { container := grown, reply := .made (((grown.find? k).getD (fresh k)).title) }
  | .field name type =>
      match c.addField? name type with
      | some grown => { container := grown, reply := .made (Symbol.field name type).title }
      | none => { container := c, reply := .refused }
  | .method m =>
      match c.addMethod? m with
      | some grown => { container := grown, reply := .kept true }
      | none => { container := c, reply := .kept false }
  | .comment text =>
      { container := c.addComment text, reply := .made (Symbol.comment text).title }
  | .parents types =>
      let grown := c.addParents types
      { container := grown
        reply := .types (((grown.classHead?.map (·.parents)).getD []).map HostType.text) }
  | .typeParams params => { container := c.addTypeParams params }
  | .setTrait value => { container := c.setTrait value }

/-- Nothing is done when a path leads nowhere. -/
def step? (root : Container) (place : Path) (action : Action) : Option Answered :=
  (root.get? place).bind fun c =>
    match action with
    | .change change =>
        let answered := c.apply change
        some { answered with container := root.put answered.container place }
    | .members enclosing nodes =>
        (root.get? enclosing).map fun _ =>
          { toEdit := root.walkBody ⟨enclosing, place⟩ nodes }

/-- A declaration is worked on where it stands, and the rest of the tree stays. -/
theorem step?_declare {root c : Container} {place : Path} (found : root.get? place = some c)
    (node : Node) :
    root.step? place (.change (.declare node)) = some { toOutcome :=
      { c.declare node with container := root.put (c.declare node).container place } } := by
  simp only [step?, found, Option.bind_some, apply]

end Container

/-- One tree and one report, which every step continues. -/
structure Session where
  tree : Container := .root
  report : Report

def Session.perform? (s : Session) (place : Path) (action : Action) :
    Option (Session × Answered) :=
  (s.tree.step? place action).map fun answered =>
    (⟨answered.container, s.report.noteAll answered.notes⟩, answered)

end Facade
