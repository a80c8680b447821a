import Facade.HostType.Basic

/-! The pen that writes a facade: the lines written so far, the indentation of the next
line, and the path of the packages that are open. What was written before a fault stays. -/
namespace Facade

structure Pen where
  outputPackage : String
  indent : String := ""
  path : List String := []
  lines : List String := []

abbrev PenM := EStateM TypeFault Pen

namespace Pen

/-- An empty line has no indentation. -/
def put (pen : Pen) (line : String) : Pen :=
  { pen with lines := pen.lines ++ [if line.isEmpty then "" else pen.indent ++ line] }

def text (pen : Pen) : String := String.join (pen.lines.map (· ++ "\n"))

end Pen

namespace PenM

def line (text : String) : PenM Unit := modify (·.put text)

def blank : PenM Unit := line ""

def lines : List String → PenM Unit
  | [] => pure ()
  | text :: texts => do line text; lines texts

/-- What can fail is made before anything of it is written. -/
def make {α : Type} (made : Except TypeFault α) : PenM α :=
  match made with
  | .ok whole => pure whole
  | .error fault => throw fault

/-- The indentation before the body is the indentation after it. -/
def indented (body : PenM Unit) : PenM Unit := do
  let outer := (← get).indent
  modify fun pen => { pen with indent := pen.indent ++ "  " }
  body
  modify fun pen => { pen with indent := outer }

def enterPackage (name : String) : PenM Unit :=
  modify fun pen => { pen with path := pen.path ++ [name] }

def leavePackage : PenM Unit := modify fun pen => { pen with path := pen.path.dropLast }

end PenM

end Facade
