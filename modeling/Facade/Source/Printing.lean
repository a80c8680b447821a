import Facade.Source.Line
import Facade.Source.Pen
import Facade.Text.Capital

/-! The source text of a facade. Members come in the order in which they were first met, but
a package first writes its packages, objects and classes, and gathers what is left, since
only those may stand alone, in an object that stands for its own namespace. -/
namespace Facade
open PenM Source

namespace Source

/-- A definition without members has no braces. -/
def block (header : String) (empty : Bool) (body : PenM Unit) : PenM Unit :=
  if empty then line header
  else do
    line (header ++ " \x7b")
    indented body
    line "\x7d"

/-- The packages, objects and classes of a package, and then the object for what is left. -/
def packageBlock (name : String) (members : List Symbol) (looseMark : PenM String)
    (standing loose : PenM Unit) : PenM Unit := do
  blank
  line ("package " ++ quoteName name ++ " \x7b")
  standing
  if members.any (!·.isContainer) then
    blank
    line nativeMark
    line (← looseMark)
    block (objectLine (Text.capitalize name)) false loose
  blank
  line "\x7d"

end Source

mutual

def Symbol.print : Symbol → PenM Unit
  | .comment body => line (commentLine body)
  | .field name type => do line (← make (fieldLine name type))
  | .method m => do
      match ← make m.line? with
      | some text => line text
      | none => pure ()
  | .container c => c.print

def Container.print : Container → PenM Unit
  | ⟨.package name, members, _, _⟩ => do
      if name.isEmpty then
        let outputPackage := (← get).outputPackage
        lines (fileHeader outputPackage)
        unless members.isEmpty do
          packageBlock (rootName outputPackage) members (pure scopeMark)
            (Symbol.printStanding members) (Symbol.printLoose members)
      else
        enterPackage name
        unless members.isEmpty do
          packageBlock name members (return globalMark (← get).path)
            (Symbol.printStanding members) (Symbol.printLoose members)
        leavePackage
  | ⟨.object name, members, _, _⟩ => do
      blank
      line nativeMark
      line (globalMark ((← get).path ++ [name]))
      block (objectLine name) members.isEmpty (Symbol.printAll members)
  | ⟨.classOrTrait info, members, _, _⟩ => do
      blank
      line nativeMark
      unless info.isTrait do line (globalMark ((← get).path ++ [info.name]))
      let header ← make info.line
      block header members.isEmpty (Symbol.printAll members)

def Symbol.printAll : List Symbol → PenM Unit
  | [] => pure ()
  | s :: rest => do
      s.print
      Symbol.printAll rest

def Symbol.printStanding : List Symbol → PenM Unit
  | [] => pure ()
  | s :: rest => do
      if s.isContainer then s.print
      Symbol.printStanding rest

def Symbol.printLoose : List Symbol → PenM Unit
  | [] => pure ()
  | s :: rest => do
      unless s.isContainer do s.print
      Symbol.printLoose rest

end

structure Printed where
  text : String
  fault : Option TypeFault

def Symbol.printed (s : Symbol) (outputPackage : String) : Printed :=
  match s.print { outputPackage } with
  | .ok _ pen => ⟨pen.text, none⟩
  | .error fault pen => ⟨pen.text, some fault⟩

end Facade
