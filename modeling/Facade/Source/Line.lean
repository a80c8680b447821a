import Facade.Source.TypeText

/-! The lines of a facade: comments, members, the headers of definitions and files, and the
annotations that tie a definition to the script object behind it. -/
namespace Facade
open Source (quoteName)

namespace Source

/-- The parts between the points of a dotted name. -/
def segments : List Char → List (List Char)
  | [] => [[]]
  | c :: rest =>
      if c == '.' then [] :: segments rest
      else
        match segments rest with
        | [] => [[c]]
        | first :: others => (c :: first) :: others

def parts (dotted : String) : List String := (segments dotted.toList).map String.ofList

/-- The last part of the output package names the root, the parts before it enclose it. -/
def rootName (outputPackage : String) : String := ((parts outputPackage).getLast?).getD ""

def enclosingParts (outputPackage : String) : List String := (parts outputPackage).dropLast

def fileHeader (outputPackage : String) : List String :=
  let outer := enclosingParts outputPackage
  (if outer.isEmpty then [] else ["package " ++ ".".intercalate (outer.map quoteName)]) ++
    ["", "import scala.scalajs.js", "import js.annotation._"]

/-- A comment must not be closed by its own text. -/
def keepOpen : List Char → List Char
  | '*' :: '/' :: rest => '*' :: ' ' :: '/' :: keepOpen rest
  | c :: rest => c :: keepOpen rest
  | [] => []

def commentLine (text : String) : String :=
  "/* " ++ String.ofList (keepOpen text.toList) ++ " */"

def fieldLine (name : String) (type : HostType) : Except TypeFault String :=
  type.written.map fun text => "var " ++ quoteName name ++ ": " ++ text ++ " = js.native"

def nativeMark : String := "@js.native"

def scopeMark : String := "@JSGlobalScope"

def globalMark (path : List String) : String := "@JSGlobal(\"" ++ ".".intercalate path ++ "\")"

def objectLine (name : String) : String := "object " ++ quoteName name ++ " extends js.Object"

end Source

namespace Method

def declarationLine (m : Method) : Except TypeFault String := do
  let typeParams ← writtenTypeParams m.typeParams
  let params ← writtenParams m.params
  let result ← m.result.written
  return (if m.bracket then "@JSBracketAccess " else "") ++ "def " ++ quoteName m.name ++
    typeParams ++ "(" ++ params ++ "): " ++ result ++ " = js.native"

/-- A class has the constructor without parameters anyway. -/
def line? (m : Method) : Except TypeFault (Option String) :=
  if m.name == constructorName then
    if m.params.isEmpty then .ok none
    else (writtenParams m.params).map fun params => some ("def this(" ++ params ++ ") = this()")
  else m.declarationLine.map some

end Method

namespace ClassHead

/-- Without a parent of its own a class extends the object type. -/
def parentTypes (info : ClassHead) : List HostType :=
  if info.parents.isEmpty then [.object] else info.parents

def line (info : ClassHead) : Except TypeFault String := do
  let typeParams ← writtenTypeParams info.typeParams
  let parents ← HostType.writtenAll info.parentTypes
  return (if info.isTrait then "trait " else "class ") ++ quoteName info.name ++ typeParams ++
    " extends " ++ " with ".intercalate parents

end ClassHead

end Facade
