/-! Types of the host language: a qualified name applied to arguments. A repeated
parameter type is the reserved name `*` applied to its element. -/
namespace Facade

structure QualifiedName where
  parts : List String
  deriving DecidableEq

namespace QualifiedName

def dot (q : QualifiedName) (part : String) : QualifiedName := ⟨q.parts ++ [part]⟩

def text (q : QualifiedName) : String := ".".intercalate q.parts

def scala : QualifiedName := ⟨["_root_", "scala"]⟩
def scalaJS : QualifiedName := ⟨["_root_", "scala", "scalajs", "js"]⟩
def javaLang : QualifiedName := ⟨["_root_", "java", "lang"]⟩
def array : QualifiedName := scalaJS.dot "Array"
def function : QualifiedName := scalaJS.dot "Function"
def repeated : QualifiedName := ⟨["*"]⟩

/-- Function types are told apart by the number of their parameters. -/
def functionOf (arity : Nat) : QualifiedName := scalaJS.dot ("Function" ++ toString arity)

end QualifiedName

/-- What may be wrong with a type: a name or a repeated type that lacks the part asked of
it, or a function type asked for with fewer than no parameters. -/
inductive TypeFault where
  | missingPart
  | negativeArity
  deriving DecidableEq

def TypeFault.message : TypeFault → String
  | .missingPart => "tuple index out of range"
  | .negativeArity => ""

def QualifiedName.last (q : QualifiedName) : Except TypeFault String :=
  match q.parts.getLast? with
  | some part => .ok part
  | none => .error .missingPart

def QualifiedName.functionOf? (arity : Int) : Except TypeFault QualifiedName :=
  if arity < 0 then .error .negativeArity else .ok (functionOf arity.toNat)

structure HostType where
  name : QualifiedName
  args : List HostType

namespace HostType

mutual

def decideEq : (a b : HostType) → Decidable (a = b)
  | ⟨m, as⟩, ⟨n, bs⟩ =>
      match decEq m n, decideEqList as bs with
      | isTrue name, isTrue args => isTrue (by rw [name, args])
      | isFalse differ, _ => isFalse (fun same => differ (HostType.mk.inj same).1)
      | _, isFalse differ => isFalse (fun same => differ (HostType.mk.inj same).2)

def decideEqList : (as bs : List HostType) → Decidable (as = bs)
  | [], [] => isTrue rfl
  | a :: as, b :: bs =>
      match decideEq a b, decideEqList as bs with
      | isTrue first, isTrue rest => isTrue (by rw [first, rest])
      | isFalse differ, _ => isFalse (fun same => differ (List.cons.inj same).1)
      | _, isFalse differ => isFalse (fun same => differ (List.cons.inj same).2)
  | [], _ :: _ => isFalse nofun
  | _ :: _, [] => isFalse nofun

end

instance : DecidableEq HostType := decideEq

def any : HostType := ⟨QualifiedName.scalaJS.dot "Any", []⟩
def dynamic : HostType := ⟨QualifiedName.scalaJS.dot "Dynamic", []⟩
def object : HostType := ⟨QualifiedName.scalaJS.dot "Object", []⟩
def function : HostType := ⟨QualifiedName.function, []⟩
def unit : HostType := ⟨QualifiedName.scala.dot "Unit", []⟩
def number : HostType := ⟨QualifiedName.scala.dot "Double", []⟩
def boolean : HostType := ⟨QualifiedName.scala.dot "Boolean", []⟩
def string : HostType := ⟨QualifiedName.javaLang.dot "String", []⟩

def repeated (element : HostType) : HostType := ⟨.repeated, [element]⟩

def isRepeated (t : HostType) : Bool := t.name == .repeated

def functionOf (params : List HostType) (result : HostType) : HostType :=
  ⟨.functionOf params.length, params ++ [result]⟩

mutual

/-- The full form, in which no prefix is shortened. -/
def text : HostType → String
  | ⟨name, args⟩ =>
      if args.isEmpty then name.text else name.text ++ "[" ++ ", ".intercalate (texts args) ++ "]"

def texts : List HostType → List String
  | [] => []
  | t :: ts => t.text :: texts ts

end

end HostType

end Facade
