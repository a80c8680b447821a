/-! Ambient declarations, as a reader of declaration files leaves them: names, types, the
members of object types and interfaces, and declarations. Malformed input is kept too, so
any node may stand where a type, a member or a declaration is expected. -/
namespace Facade.Ambient

inductive Literal where
  | text (value : String)
  | integer (value : Int)
  | decimal (value : Float)
  | boolean (value : Bool)
  | null

/-- Core names, such as `number` and `void`, belong to the language; plain names are declared. -/
inductive TypeName where
  | plain (text : String)
  | core (text : String)
  deriving DecidableEq

def TypeName.text : TypeName → String
  | .plain text => text
  | .core text => text

structure QualifiedTypeName where
  qualifier : List String
  name : TypeName
  deriving DecidableEq

inductive TypeBase where
  | simple (name : TypeName)
  | qualified (name : QualifiedTypeName)
  deriving DecidableEq

mutual

inductive Node where
  | identifier (name : String)
  | propertyName (name : String)
  | typeName (name : TypeName)
  | qualifiedTypeName (name : QualifiedTypeName)
  | typeParam (param : TypeParam)
  | param (param : Param)
  | signature (signature : Signature)
  | literal (literal : Literal)
  | typeReference (base : TypeBase) (args : List Node)
  | objectType (members : List Node)
  | functionType (signature : Signature)
  | repeatedType (element : Node)
  | unionType (left right : Node)
  | tupleType (elements : List Node)
  | typeQuery (path : List String)
  | constantType (literal : Literal)
  | callMember (signature : Signature)
  | constructorMember (signature : Signature)
  | indexMember (name : String) (index value : Node)
  | propertyMember (name : String) (optional : Bool) (type : Node)
  | functionMember (name : String) (optional : Bool) (signature : Signature)
  | moduleDecl (name : String) (members : List Node)
  | varDecl (name : String) (type : Option Node)
  | typeDecl (name : TypeName) (type : Node)
  | interfaceDecl (name : TypeName) (typeParams : List TypeParam) (parents : List Node)
      (members : List Node)
  | functionDecl (name : String) (signature : Signature)
  | enumDecl (name : TypeName) (members : List String)
  | classDecl (name : TypeName) (typeParams : List TypeParam) (parent : Option Node)
      (interfaces : List Node) (members : List Node)
  | importDecl (name : String) (path : String)

structure TypeParam where
  name : TypeName
  bound : Option Node

structure Param where
  name : String
  optional : Bool
  type : Option Node

structure Signature where
  typeParams : List TypeParam
  params : List Param
  result : Option Node

end

/-- A reference to a declared type by its plain name. -/
def Node.named (name : String) (args : List Node) : Node :=
  .typeReference (.simple (.plain name)) args

def Node.core (name : String) : Node := .typeReference (.simple (.core name)) []

def Node.isRepeated : Node → Bool
  | .repeatedType _ => true
  | _ => false

def Node.isConstant : Node → Bool
  | .constantType _ => true
  | _ => false

/-- A parameter without a declared type takes anything. -/
def Param.typeOrAny (p : Param) : Node := p.type.getD (.core "any")

end Facade.Ambient
