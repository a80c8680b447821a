import Facade.Ambient.Tree
import Facade.HostType.Basic

/-! Ambient types as host types. Every type has one: a shape without a counterpart becomes
the type of anything, and a function type that cannot be spelled out becomes the bare
function type. -/
namespace Facade
open Ambient (Node TypeBase)

/-- The declared type of a variable and the result of a declared function are outer
positions, where `any` becomes dynamic so that the facade stays usable. -/
inductive Position where
  | inner
  | outer
  deriving DecidableEq

def Position.any : Position → HostType
  | .inner => HostType.any
  | .outer => HostType.dynamic

def coreType (name : String) (position : Position) : HostType :=
  match name with
  | "any" => position.any
  | "number" => .number
  | "bool" => .boolean
  | "boolean" => .boolean
  | "string" => .string
  | "void" => .unit
  | "dynamic" => .dynamic
  | _ => .any

/-- Two plain names stand for types that the host library brings along. -/
def declaredName : TypeBase → QualifiedName
  | .qualified q => ⟨q.qualifier ++ [q.name.text]⟩
  | .simple name =>
      match name.text with
      | "Array" => .array
      | "Function" => .function
      | text => ⟨[text]⟩

def Ambient.TypeBase.core? : TypeBase → Option String
  | .simple (.core name) => some name
  | _ => none

def Ambient.Param.isRepeated (p : Ambient.Param) : Bool := p.typeOrAny.isRepeated

mutual

def Ambient.Node.hostType (position : Position) : Node → HostType
  | .typeReference base args =>
      match base.core? with
      | some name => if args.isEmpty then coreType name position else .any
      | none => ⟨declaredName base, hostTypes args⟩
  | .functionType signature => signature.functionType
  | .repeatedType element => .repeated (element.hostType .inner)
  | _ => .any

/-- Only a function type with a result, without type parameters and without a repeated
parameter can be spelled out. -/
def Ambient.Signature.functionType : Ambient.Signature → HostType
  | ⟨_, _, none⟩ => .any
  | ⟨typeParams, params, some result⟩ =>
      if !typeParams.isEmpty || params.any (·.isRepeated) then .function
      else .functionOf (paramTypes params) (result.hostType .inner)

def hostTypes : List Node → List HostType
  | [] => []
  | node :: nodes => node.hostType .inner :: hostTypes nodes

def paramTypes : List Ambient.Param → List HostType
  | [] => []
  | ⟨_, _, none⟩ :: params => .any :: paramTypes params
  | ⟨_, _, some type⟩ :: params => type.hostType .inner :: paramTypes params

end

end Facade
