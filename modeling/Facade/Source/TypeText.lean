import Facade.HostType.Basic
import Facade.Source.Identifier
import Facade.Symbol.Basic

/-! Types and parameters as they are written in a facade. The packages that every facade
sees are left out of a name: `js` stands for its whole path, and a direct member of the
language's own packages stands alone. -/
namespace Facade
open Source (quoteName)

/-- What follows the first list in the second, if that starts with it. -/
def after? : List String → List String → Option (List String)
  | [], rest => some rest
  | _ :: _, [] => none
  | p :: ps, q :: qs => if p == q then after? ps qs else none

/-- The part that follows a package directly. -/
def QualifiedName.directIn? (package q : QualifiedName) : Option String :=
  match after? package.parts q.parts with
  | some [part] => some part
  | _ => none

def QualifiedName.written (q : QualifiedName) : String :=
  match after? QualifiedName.scalaJS.parts q.parts with
  | some rest => ".".intercalate ("js" :: rest.map quoteName)
  | none =>
      match QualifiedName.scala.directIn? q <|> QualifiedName.javaLang.directIn? q with
      | some part => quoteName part
      | none => ".".intercalate (q.parts.map quoteName)

def bracketed : List String → String
  | [] => ""
  | texts => "[" ++ ", ".intercalate texts ++ "]"

namespace HostType

mutual

/-- A repeated type is its element with a star, and it has nothing to show without one. -/
def written : HostType → Except TypeFault String
  | ⟨name, args⟩ =>
      if name == .repeated then writtenElement args
      else (writtenAll args).map fun texts => name.written ++ bracketed texts

def writtenElement : List HostType → Except TypeFault String
  | [] => .error .missingPart
  | element :: _ => element.written.map (· ++ "*")

def writtenAll : List HostType → Except TypeFault (List String)
  | [] => .ok []
  | t :: ts => do
      let text ← t.written
      let texts ← writtenAll ts
      return text :: texts

end

end HostType

def TypeParam.written (p : TypeParam) : Except TypeFault String :=
  match p.bound with
  | none => .ok (quoteName p.name)
  | some bound => bound.written.map fun text => quoteName p.name ++ " <: " ++ text

def writtenTypeParams (params : List TypeParam) : Except TypeFault String :=
  (params.mapM TypeParam.written).map bracketed

/-- An optional parameter has a default that the facade leaves to its native counterpart. -/
def Param.written (p : Param) : Except TypeFault String :=
  p.type.written.map fun text =>
    quoteName p.name ++ ": " ++ text ++ if p.optional then " = js.native" else ""

def writtenParams (params : List Param) : Except TypeFault String :=
  (params.mapM Param.written).map (", ".intercalate ·)

end Facade
