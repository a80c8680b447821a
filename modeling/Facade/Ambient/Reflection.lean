import Facade.Ambient.Term

/-! Every node as a term, so that a placeholder can show the whole node it stands for, and
so that nodes can be compared. -/
namespace Facade.Ambient

namespace Term

/-- An identifier inside a path is a node of its own. -/
def identifier (name : String) : Term := .record "Ident" [⟨"name", text name⟩]

def identifiers (names : List String) : Term := .sequence (names.map identifier)

end Term

def TypeName.term : TypeName → Term
  | .plain text => .record "TypeName" [⟨"name", .text text⟩]
  | .core text => .record "CoreType" [⟨"name", .text text⟩]

def QualifiedTypeName.term (q : QualifiedTypeName) : Term :=
  .record "QualifiedTypeName" [⟨"qualifier", .identifiers q.qualifier⟩, ⟨"name", q.name.term⟩]

def TypeBase.term : TypeBase → Term
  | .simple name => name.term
  | .qualified name => name.term

def propertyTerm (name : String) : Term := .record "PropertyName" [⟨"name", .text name⟩]

def Literal.term (literal : Literal) : Term := .record "Literal" [⟨"value", .value literal⟩]

mutual

def Node.term : Node → Term
  | .identifier name => .identifier name
  | .propertyName name => propertyTerm name
  | .typeName name => name.term
  | .qualifiedTypeName name => name.term
  | .typeParam param => param.term
  | .param param => param.term
  | .signature signature => signature.term
  | .literal literal => literal.term
  | .typeReference base args =>
      .record "TypeRef" [⟨"base", base.term⟩, ⟨"targs", .sequence (terms args)⟩]
  | .objectType members => .record "ObjectType" [⟨"members", .sequence (terms members)⟩]
  | .functionType signature => .record "FunctionType" [⟨"signature", signature.term⟩]
  | .repeatedType element => .record "RepeatedType" [⟨"underlying", element.term⟩]
  | .unionType left right =>
      .record "UnionType" [⟨"left", left.term⟩, ⟨"right", right.term⟩]
  | .tupleType elements => .record "TupleType" [⟨"elements", .sequence (terms elements)⟩]
  | .typeQuery path => .record "TypeQuery" [⟨"expr", .identifiers path⟩]
  | .constantType literal => .record "ConstantType" [⟨"literal", literal.term⟩]
  | .callMember signature => .record "CallMember" [⟨"signature", signature.term⟩]
  | .constructorMember signature => .record "ConstructorMember" [⟨"signature", signature.term⟩]
  | .indexMember name index value =>
      .record "IndexMember" [⟨"index_name", .identifier name⟩, ⟨"index_type", index.term⟩,
        ⟨"value_type", value.term⟩]
  | .propertyMember name optional type =>
      .record "PropertyMember" [⟨"name", propertyTerm name⟩, ⟨"optional", .flag optional⟩,
        ⟨"tpe", type.term⟩]
  | .functionMember name optional signature =>
      .record "FunctionMember" [⟨"name", propertyTerm name⟩, ⟨"optional", .flag optional⟩,
        ⟨"signature", signature.term⟩]
  | .moduleDecl name members =>
      .record "ModuleDecl" [⟨"name", .identifier name⟩, ⟨"members", .sequence (terms members)⟩]
  | .varDecl name type => .record "VarDecl" [⟨"name", .identifier name⟩, ⟨"tpe", termOrAbsent type⟩]
  | .typeDecl name type => .record "TypeDecl" [⟨"name", name.term⟩, ⟨"tpe", type.term⟩]
  | .interfaceDecl name typeParams parents members =>
      .record "InterfaceDecl" [⟨"name", name.term⟩,
        ⟨"tparams", .sequence (typeParamTerms typeParams)⟩,
        ⟨"inheritance", .sequence (terms parents)⟩, ⟨"members", .sequence (terms members)⟩]
  | .functionDecl name signature =>
      .record "FunctionDecl" [⟨"name", .identifier name⟩, ⟨"signature", signature.term⟩]
  | .enumDecl name members =>
      .record "EnumDecl" [⟨"name", name.term⟩, ⟨"members", .identifiers members⟩]
  | .classDecl name typeParams parent interfaces members =>
      .record "ClassDecl" [⟨"name", name.term⟩,
        ⟨"tparams", .sequence (typeParamTerms typeParams)⟩, ⟨"parent", termOrAbsent parent⟩,
        ⟨"implements", .sequence (terms interfaces)⟩, ⟨"members", .sequence (terms members)⟩]
  | .importDecl name path =>
      .record "ImportDecl" [⟨"name", .identifier name⟩, ⟨"path", .text path⟩]

def TypeParam.term : TypeParam → Term
  | ⟨name, bound⟩ =>
      .record "TypeParam" [⟨"name", name.term⟩, ⟨"upper_bound", termOrAbsent bound⟩]

def Param.term : Param → Term
  | ⟨name, optional, type⟩ =>
      .record "FunParam" [⟨"name", .identifier name⟩, ⟨"optional", .flag optional⟩,
        ⟨"tpe", termOrAbsent type⟩]

def Signature.term : Signature → Term
  | ⟨typeParams, params, result⟩ =>
      .record "FunSignature" [⟨"tparams", .sequence (typeParamTerms typeParams)⟩,
        ⟨"params", .sequence (paramTerms params)⟩, ⟨"result_type", termOrAbsent result⟩]

def terms : List Node → List Term
  | [] => []
  | node :: nodes => node.term :: terms nodes

def termOrAbsent : Option Node → Term
  | none => .absent
  | some node => node.term

def typeParamTerms : List TypeParam → List Term
  | [] => []
  | param :: params => param.term :: typeParamTerms params

def paramTerms : List Param → List Term
  | [] => []
  | param :: params => param.term :: paramTerms params

end

namespace Node

def kind (node : Node) : String := node.term.kind

def shown (node : Node) : String := node.term.shown

def same (a b : Node) : Bool := a.term.same b.term

end Node

end Facade.Ambient
