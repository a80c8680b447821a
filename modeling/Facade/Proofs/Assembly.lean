import Facade.Ambient.Reflection

/-! Nodes are put together again from their terms. The kind of a record and the parts in its fields
say which node it shows, and the names of its fields are not needed for that. -/
namespace Facade.Ambient

/-- What a term shows: a node, the nodes of a sequence, or a value. -/
inductive Part where
  | node (node : Node)
  | nodes (nodes : List Node)
  | value (literal : Literal)

namespace Node

def identifier? : Node → Option String
  | .identifier name => some name
  | _ => none

def typeParam? : Node → Option TypeParam
  | .typeParam p => some p
  | _ => none

def param? : Node → Option Param
  | .param p => some p
  | _ => none

end Node

namespace Part

/-- A node that may be absent. -/
def optional : Option Node → Part
  | none => .value .null
  | some a => .node a

def node? : Part → Option Node
  | .node a => some a
  | _ => none

theorem node?_optional (node : Option Node) : (optional node).node? = node := by
  cases node <;> rfl

end Part

/-- The node of a kind with these parts. -/
def Node.assemble? : String → List Part → Option Node
  | "Ident", [.value (.text name)] => some (.identifier name)
  | "PropertyName", [.value (.text name)] => some (.propertyName name)
  | "TypeName", [.value (.text name)] => some (.typeName (.plain name))
  | "CoreType", [.value (.text name)] => some (.typeName (.core name))
  | "QualifiedTypeName", [.nodes qualifier, .node (.typeName name)] =>
      some (.qualifiedTypeName ⟨qualifier.filterMap identifier?, name⟩)
  | "TypeParam", [.node (.typeName name), bound] => some (.typeParam ⟨name, bound.node?⟩)
  | "FunParam", [.node (.identifier name), .value (.boolean optional), type] =>
      some (.param ⟨name, optional, type.node?⟩)
  | "FunSignature", [.nodes typeParams, .nodes params, result] =>
      some (.signature ⟨typeParams.filterMap typeParam?, params.filterMap param?, result.node?⟩)
  | "Literal", [.value l] => some (.literal l)
  | "TypeRef", [.node (.typeName name), .nodes args] => some (.typeReference (.simple name) args)
  | "TypeRef", [.node (.qualifiedTypeName name), .nodes args] =>
      some (.typeReference (.qualified name) args)
  | "ObjectType", [.nodes members] => some (.objectType members)
  | "FunctionType", [.node (.signature s)] => some (.functionType s)
  | "RepeatedType", [.node element] => some (.repeatedType element)
  | "UnionType", [.node left, .node right] => some (.unionType left right)
  | "TupleType", [.nodes elements] => some (.tupleType elements)
  | "TypeQuery", [.nodes path] => some (.typeQuery (path.filterMap identifier?))
  | "ConstantType", [.node (.literal l)] => some (.constantType l)
  | "CallMember", [.node (.signature s)] => some (.callMember s)
  | "ConstructorMember", [.node (.signature s)] => some (.constructorMember s)
  | "IndexMember", [.node (.identifier name), .node index, .node value] =>
      some (.indexMember name index value)
  | "PropertyMember", [.node (.propertyName name), .value (.boolean optional), .node type] =>
      some (.propertyMember name optional type)
  | "FunctionMember", [.node (.propertyName name), .value (.boolean optional), .node (.signature s)] =>
      some (.functionMember name optional s)
  | "ModuleDecl", [.node (.identifier name), .nodes members] => some (.moduleDecl name members)
  | "VarDecl", [.node (.identifier name), type] => some (.varDecl name type.node?)
  | "TypeDecl", [.node (.typeName name), .node type] => some (.typeDecl name type)
  | "InterfaceDecl", [.node (.typeName name), .nodes typeParams, .nodes parents, .nodes members] =>
      some (.interfaceDecl name (typeParams.filterMap typeParam?) parents members)
  | "FunctionDecl", [.node (.identifier name), .node (.signature s)] =>
      some (.functionDecl name s)
  | "EnumDecl", [.node (.typeName name), .nodes members] =>
      some (.enumDecl name (members.filterMap identifier?))
  | "ClassDecl", [.node (.typeName name), .nodes typeParams, parent, .nodes interfaces,
      .nodes members] =>
      some (.classDecl name (typeParams.filterMap typeParam?) parent.node? interfaces members)
  | "ImportDecl", [.node (.identifier name), .value (.text path)] => some (.importDecl name path)
  | _, _ => none

mutual

/-- What a term shows, if it shows a node. -/
def Term.part? : Term → Option Part
  | .value literal => some (.value literal)
  | .sequence items => (itemNodes? items).map .nodes
  | .record kind fields => ((fieldParts? fields).bind (Node.assemble? kind)).map .node

def itemNodes? : List Term → Option (List Node)
  | [] => some []
  | item :: items => do return (← (← item.part?).node?) :: (← itemNodes? items)

def fieldParts? : List Field → Option (List Part)
  | [] => some []
  | ⟨_, value⟩ :: fields => do return (← value.part?) :: (← fieldParts? fields)

end
theorem part?_record {kind : String} {fields : List Field} {parts : List Part} {node : Node}
    (read : fieldParts? fields = some parts) (made : Node.assemble? kind parts = some node) :
    (Term.record kind fields).part? = some (.node node) := by
  rw [Term.part?, read, Option.bind_some, made, Option.map_some]

theorem fieldParts?_cons {name : String} {value : Term} {fields : List Field} {part : Part}
    {parts : List Part} (first : value.part? = some part) (rest : fieldParts? fields = some parts) :
    fieldParts? (⟨name, value⟩ :: fields) = some (part :: parts) := by
  rw [fieldParts?, first, rest]
  rfl

theorem itemNodes?_cons {item : Term} {items : List Term} {node : Node} {nodes : List Node}
    (first : item.part? = some (.node node)) (rest : itemNodes? items = some nodes) :
    itemNodes? (item :: items) = some (node :: nodes) := by
  rw [itemNodes?, first, rest]
  rfl

theorem part?_sequence {items : List Term} {nodes : List Node}
    (read : itemNodes? items = some nodes) : (Term.sequence items).part? = some (.nodes nodes) := by
  rw [Term.part?, read, Option.map_some]

theorem part?_identifier (name : String) :
    (Term.identifier name).part? = some (.node (.identifier name)) :=
  part?_record (fieldParts?_cons rfl rfl) (by rfl)

theorem part?_identifiers (names : List String) :
    (Term.identifiers names).part? = some (.nodes (names.map .identifier)) := by
  refine part?_sequence ?_
  induction names with
  | nil => rfl
  | cons name names ih => exact itemNodes?_cons (part?_identifier name) ih

theorem filterMap_identifier? (names : List String) :
    (names.map Node.identifier).filterMap Node.identifier? = names := by
  rw [List.filterMap_map]
  exact List.filterMap_some

theorem filterMap_typeParam? (params : List TypeParam) :
    (params.map Node.typeParam).filterMap Node.typeParam? = params := by
  rw [List.filterMap_map]
  exact List.filterMap_some

theorem filterMap_param? (params : List Param) :
    (params.map Node.param).filterMap Node.param? = params := by
  rw [List.filterMap_map]
  exact List.filterMap_some

theorem part?_typeName (name : TypeName) : name.term.part? = some (.node (.typeName name)) := by
  cases name with
  | plain text => exact part?_record (fieldParts?_cons rfl rfl) (by rfl)
  | core text => exact part?_record (fieldParts?_cons rfl rfl) (by rfl)

theorem part?_qualifiedTypeName (q : QualifiedTypeName) :
    q.term.part? = some (.node (.qualifiedTypeName q)) := by
  have qualifier := filterMap_identifier? q.qualifier
  refine part?_record
    (fieldParts?_cons (part?_identifiers q.qualifier) (fieldParts?_cons (part?_typeName q.name) rfl))
    ?_
  exact congrArg (fun names => some (Node.qualifiedTypeName ⟨names, q.name⟩)) qualifier

theorem part?_propertyTerm (name : String) :
    (propertyTerm name).part? = some (.node (.propertyName name)) :=
  part?_record (fieldParts?_cons rfl rfl) (by rfl)

theorem part?_literal (literal : Literal) :
    literal.term.part? = some (.node (.literal literal)) :=
  part?_record (fieldParts?_cons rfl rfl) (by rfl)

mutual

/-- A node is put together again from its term. -/
theorem Node.part?_term (node : Node) : node.term.part? = some (.node node) := by
  cases node with
  | identifier name => exact part?_identifier name
  | propertyName name => exact part?_propertyTerm name
  | typeName name => exact part?_typeName name
  | qualifiedTypeName name => exact part?_qualifiedTypeName name
  | typeParam p => exact p.part?_term
  | param p => exact p.part?_term
  | signature s => exact s.part?_term
  | literal l => exact part?_literal l
  | typeReference base args =>
    have inner := part?_sequence (itemNodes?_terms args)
    cases base with
    | simple name =>
      exact part?_record (fieldParts?_cons (part?_typeName name) (fieldParts?_cons inner rfl))
        (by rfl)
    | qualified name =>
      exact part?_record
        (fieldParts?_cons (part?_qualifiedTypeName name) (fieldParts?_cons inner rfl)) (by rfl)
  | objectType members =>
    exact part?_record (fieldParts?_cons (part?_sequence (itemNodes?_terms members)) rfl) (by rfl)
  | functionType s => exact part?_record (fieldParts?_cons s.part?_term rfl) (by rfl)
  | repeatedType element => exact part?_record (fieldParts?_cons element.part?_term rfl) (by rfl)
  | unionType left right =>
    exact part?_record
      (fieldParts?_cons left.part?_term (fieldParts?_cons right.part?_term rfl)) (by rfl)
  | tupleType elements =>
    exact part?_record (fieldParts?_cons (part?_sequence (itemNodes?_terms elements)) rfl) (by rfl)
  | typeQuery path =>
    exact part?_record (fieldParts?_cons (part?_identifiers path) rfl)
      (congrArg (fun names => some (Node.typeQuery names)) (filterMap_identifier? path))
  | constantType l => exact part?_record (fieldParts?_cons (part?_literal l) rfl) (by rfl)
  | callMember s => exact part?_record (fieldParts?_cons s.part?_term rfl) (by rfl)
  | constructorMember s => exact part?_record (fieldParts?_cons s.part?_term rfl) (by rfl)
  | indexMember name index value =>
    exact part?_record (fieldParts?_cons (part?_identifier name)
      (fieldParts?_cons index.part?_term (fieldParts?_cons value.part?_term rfl))) (by rfl)
  | propertyMember name optional type =>
    exact part?_record (fieldParts?_cons (part?_propertyTerm name)
      (fieldParts?_cons rfl (fieldParts?_cons type.part?_term rfl))) (by rfl)
  | functionMember name optional s =>
    exact part?_record (fieldParts?_cons (part?_propertyTerm name)
      (fieldParts?_cons rfl (fieldParts?_cons s.part?_term rfl))) (by rfl)
  | moduleDecl name members =>
    exact part?_record (fieldParts?_cons (part?_identifier name)
      (fieldParts?_cons (part?_sequence (itemNodes?_terms members)) rfl)) (by rfl)
  | varDecl name type =>
    exact part?_record (fieldParts?_cons (part?_identifier name)
      (fieldParts?_cons (part?_termOrAbsent type) rfl))
      (congrArg (fun type => some (Node.varDecl name type)) (Part.node?_optional type))
  | typeDecl name type =>
    exact part?_record (fieldParts?_cons (part?_typeName name)
      (fieldParts?_cons type.part?_term rfl)) (by rfl)
  | interfaceDecl name typeParams parents members =>
    have params := part?_sequence (itemNodes?_typeParamTerms typeParams)
    have others := part?_sequence (itemNodes?_terms parents)
    have inner := part?_sequence (itemNodes?_terms members)
    exact part?_record (fieldParts?_cons (part?_typeName name)
      (fieldParts?_cons params (fieldParts?_cons others (fieldParts?_cons inner rfl))))
      (congrArg (fun params => some (Node.interfaceDecl name params parents members))
        (filterMap_typeParam? typeParams))
  | functionDecl name s =>
    exact part?_record (fieldParts?_cons (part?_identifier name)
      (fieldParts?_cons s.part?_term rfl)) (by rfl)
  | enumDecl name members =>
    exact part?_record (fieldParts?_cons (part?_typeName name)
      (fieldParts?_cons (part?_identifiers members) rfl))
      (congrArg (fun members => some (Node.enumDecl name members)) (filterMap_identifier? members))
  | classDecl name typeParams parent interfaces members =>
    have made : some (Node.classDecl name ((typeParams.map .typeParam).filterMap Node.typeParam?)
        (Part.optional parent).node? interfaces members) =
        some (.classDecl name typeParams parent interfaces members) := by
      rw [filterMap_typeParam?, Part.node?_optional]
    have params := part?_sequence (itemNodes?_typeParamTerms typeParams)
    have others := part?_sequence (itemNodes?_terms interfaces)
    have inner := part?_sequence (itemNodes?_terms members)
    exact part?_record (fieldParts?_cons (part?_typeName name)
      (fieldParts?_cons params (fieldParts?_cons (part?_termOrAbsent parent)
        (fieldParts?_cons others (fieldParts?_cons inner rfl)))))
      made
  | importDecl name path =>
    exact part?_record (fieldParts?_cons (part?_identifier name) (fieldParts?_cons rfl rfl))
      (by rfl)

theorem TypeParam.part?_term (p : TypeParam) : p.term.part? = some (.node (.typeParam p)) := by
  obtain ⟨name, bound⟩ := p
  exact part?_record
    (fieldParts?_cons (part?_typeName name) (fieldParts?_cons (part?_termOrAbsent bound) rfl))
    (congrArg (fun bound => some (Node.typeParam ⟨name, bound⟩)) (Part.node?_optional bound))

theorem Param.part?_term (p : Param) : p.term.part? = some (.node (.param p)) := by
  obtain ⟨name, optional, type⟩ := p
  exact part?_record
    (fieldParts?_cons (part?_identifier name)
      (fieldParts?_cons rfl (fieldParts?_cons (part?_termOrAbsent type) rfl)))
    (congrArg (fun type => some (Node.param ⟨name, optional, type⟩)) (Part.node?_optional type))

theorem Signature.part?_term (s : Signature) : s.term.part? = some (.node (.signature s)) := by
  obtain ⟨typeParams, params, result⟩ := s
  have made : some (Node.signature ⟨(typeParams.map .typeParam).filterMap Node.typeParam?,
      (params.map .param).filterMap Node.param?, (Part.optional result).node?⟩) =
      some (.signature ⟨typeParams, params, result⟩) := by
    rw [filterMap_typeParam?, filterMap_param?, Part.node?_optional]
  exact part?_record
    (fieldParts?_cons (part?_sequence (itemNodes?_typeParamTerms typeParams))
      (fieldParts?_cons (part?_sequence (itemNodes?_paramTerms params))
        (fieldParts?_cons (part?_termOrAbsent result) rfl))) made

theorem itemNodes?_terms (nodes : List Node) : itemNodes? (terms nodes) = some nodes := by
  cases nodes with
  | nil => rfl
  | cons node nodes => exact itemNodes?_cons node.part?_term (itemNodes?_terms nodes)

theorem part?_termOrAbsent (node : Option Node) :
    (termOrAbsent node).part? = some (.optional node) := by
  cases node with
  | none => rfl
  | some node => exact node.part?_term

theorem itemNodes?_typeParamTerms (params : List TypeParam) :
    itemNodes? (typeParamTerms params) = some (params.map .typeParam) := by
  cases params with
  | nil => rfl
  | cons p params => exact itemNodes?_cons p.part?_term (itemNodes?_typeParamTerms params)

theorem itemNodes?_paramTerms (params : List Param) :
    itemNodes? (paramTerms params) = some (params.map .param) := by
  cases params with
  | nil => rfl
  | cons p params => exact itemNodes?_cons p.part?_term (itemNodes?_paramTerms params)

end

/-- No two nodes have one term. -/
theorem Node.term_injective : Function.Injective Node.term := by
  intro a b same
  have read := a.part?_term
  rw [same, b.part?_term] at read
  exact (Part.node.inj (Option.some.inj read)).symm

end Facade.Ambient
