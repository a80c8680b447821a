import Facade.Proofs.Charter
import Facade.Proofs.Names

/-! The nodes inside declarations, and what they say about the types of a tree. If every type
that is translated from nodes of some sort qualifies, so does every type in the tree of
declarations that hold no other nodes. -/
namespace Facade
open Ambient (Node Signature)

namespace Ambient

mutual

/-- The nodes inside a node, at any depth. The place for a repeated type is the declared type of a
parameter, and there its element is listed instead of it. -/
def Node.inner : Node → List Node
  | .typeParam param => param.inner
  | .param param => param.inner
  | .signature signature => signature.inner
  | .typeReference _ args => partsOf args
  | .objectType members => partsOf members
  | .functionType signature => signature.inner
  | .repeatedType element => element :: element.inner
  | .unionType left right => left :: left.inner ++ right :: right.inner
  | .tupleType elements => partsOf elements
  | .callMember signature => signature.inner
  | .constructorMember signature => signature.inner
  | .indexMember _ index value => index :: index.inner ++ value :: value.inner
  | .propertyMember _ _ type => type :: type.inner
  | .functionMember _ _ signature => signature.inner
  | .moduleDecl _ members => partsOf members
  | .varDecl _ type => optionParts type
  | .typeDecl _ type => type :: type.inner
  | .interfaceDecl _ typeParams parents members =>
      typeParamParts typeParams ++ partsOf parents ++ partsOf members
  | .functionDecl _ signature => signature.inner
  | .classDecl _ typeParams parent interfaces members =>
      typeParamParts typeParams ++ optionParts parent ++ partsOf interfaces ++ partsOf members
  | _ => []

def TypeParam.inner : TypeParam → List Node
  | ⟨_, bound⟩ => optionParts bound

def Param.inner : Param → List Node
  | ⟨_, _, some (.repeatedType element)⟩ => element :: element.inner
  | ⟨_, _, type⟩ => optionParts type

def Signature.inner : Signature → List Node
  | ⟨typeParams, params, result⟩ =>
      typeParamParts typeParams ++ paramParts params ++ optionParts result

def partsOf : List Node → List Node
  | [] => []
  | node :: nodes => node :: node.inner ++ partsOf nodes

def optionParts : Option Node → List Node
  | none => []
  | some node => node :: node.inner

def typeParamParts : List TypeParam → List Node
  | [] => []
  | param :: params => param.inner ++ typeParamParts params

def paramParts : List Param → List Node
  | [] => []
  | param :: params => param.inner ++ paramParts params

end

def Node.parts (node : Node) : List Node := node :: node.inner

variable {part : Node}

theorem mem_partsOf {nodes : List Node} :
    part ∈ partsOf nodes ↔ ∃ node ∈ nodes, part ∈ node.parts := mem_gathered rfl fun _ _ => rfl

theorem mem_typeParamParts {params : List TypeParam} :
    part ∈ typeParamParts params ↔ ∃ param ∈ params, part ∈ param.inner :=
  mem_gathered rfl fun _ _ => rfl

theorem mem_paramParts {params : List Param} :
    part ∈ paramParts params ↔ ∃ param ∈ params, part ∈ param.inner :=
  mem_gathered rfl fun _ _ => rfl

theorem Param.inner_of_not_repeated {name : String} {optional : Bool} {node : Node}
    (plain : node.isRepeated = false) : Param.inner ⟨name, optional, some node⟩ = node.parts := by
  cases node with
  | repeatedType element => contradiction
  | _ => rfl

/-- Every part of a node is of some sort. -/
def Node.Throughout (ok : Node → Prop) (node : Node) : Prop := ∀ part ∈ node.parts, ok part

instance (ok : Node → Prop) [DecidablePred ok] (node : Node) : Decidable (node.Throughout ok) :=
  inferInstanceAs (Decidable (∀ part ∈ node.parts, ok part))

variable {ok : Node → Prop} {node : Node}

theorem Node.Throughout.self (fit : node.Throughout ok) : ok node := fit node (.head _)

theorem Node.Throughout.of_inner (fit : node.Throughout ok) : ∀ part ∈ node.inner, ok part :=
  fun part member => fit part (.tail _ member)

theorem throughout_of_partsOf {nodes : List Node} (fit : ∀ part ∈ partsOf nodes, ok part) :
    ∀ node ∈ nodes, node.Throughout ok := fun node listed part member =>
  fit part (mem_partsOf.mpr ⟨node, listed, member⟩)

theorem TypeParam.throughout_bound {p : TypeParam} (fit : ∀ part ∈ p.inner, ok part) :
    ∀ bound ∈ p.bound, bound.Throughout ok := by
  obtain ⟨name, bound⟩ := p
  rintro node rfl
  exact fit

/-- The parts of a signature, by where they stand. -/
theorem Signature.throughout {s : Signature} (fit : ∀ part ∈ s.inner, ok part) :
    (∀ p ∈ s.typeParams, ∀ part ∈ p.inner, ok part) ∧
      (∀ p ∈ s.params, ∀ part ∈ p.inner, ok part) ∧
      ∀ result ∈ s.result, result.Throughout ok := by
  obtain ⟨typeParams, params, result⟩ := s
  simp only [Signature.inner, List.mem_append] at fit
  refine ⟨fun p listed part member => ?_, fun p listed part member => ?_, ?_⟩
  · exact fit part (.inl (.inl (mem_typeParamParts.mpr ⟨p, listed, member⟩)))
  · exact fit part (.inl (.inr (mem_paramParts.mpr ⟨p, listed, member⟩)))
  · rintro node rfl part member
    exact fit part (.inr member)

end Ambient

/-- A charter covers declarations with all their parts of some sort if it admits what each of these
brings where it stands. -/
theorem Charter.covers_throughout {charter : Charter} {ok : Node → Prop}
    (single : ∀ {node : Node} {entry}, node.Throughout ok → node.single? = some entry →
      ∀ head, charter.Admits head entry)
    (member : ∀ kind (node : Node), node.Throughout ok → charter.AdmitsMember kind node)
    (typeParam : ∀ p : Ambient.TypeParam, (∀ part ∈ p.inner, ok part) →
      charter.typeParam (.ofAmbient p))
    (parents : ∀ nodes, (∀ part ∈ Ambient.partsOf nodes, ok part) →
      ∀ type ∈ hostTypes nodes, charter.parent type) :
    charter.Covers (Node.Throughout ok) where
  package fit := Ambient.throughout_of_partsOf fit.of_inner
  single fit found head _ := single fit found head
  object fit node listed := member _ node <|
    Ambient.throughout_of_partsOf (fun part there => fit.of_inner part (.tail _ there)) node listed
  record fit node listed := member _ node <|
    Ambient.throughout_of_partsOf (fun part there => fit.of_inner part (.tail _ there)) node listed
  interface := by
    intro name typeParams parentNodes members fit
    have inner := fit.of_inner
    simp only [Node.inner, List.mem_append] at inner
    refine ⟨fun p listed => typeParam p fun part there => ?_,
      parents parentNodes fun part there => inner part (.inl (.inr there)),
      fun node listed => member _ node <|
        Ambient.throughout_of_partsOf (fun part there => inner part (.inr there)) node listed⟩
    exact inner part (.inl (.inl (Ambient.mem_typeParamParts.mpr ⟨p, listed, there⟩)))

/-- The charter that asks one thing of every type, and takes something else as well for a
parameter of a method that is no accessor. -/
def Charter.ofTypes (plain param : HostType → Prop) : Charter where
  parent := plain
  typeParam p := ∀ bound ∈ p.bound, plain bound
  field _ _ := plain
  method _ m := (∀ p ∈ m.typeParams, ∀ bound ∈ p.bound, plain bound) ∧
    (∀ p ∈ m.params, plain p.type ∨ m.bracket = false ∧ param p.type) ∧ plain m.result
  field_grows _ := id
  method_grows _ := id

/-- Types of which one thing can be said whenever they are translated from nodes of some sort. What
is left to a parameter alone is a repeated type. -/
structure TypeRules (ok : Node → Prop) (plain param : HostType → Prop) : Prop where
  core : ∀ name position, plain (coreType name position)
  function : plain .function
  functionOf : ∀ {params result}, (∀ type ∈ params, plain type) → plain result →
    plain (.functionOf params result)
  declared : ∀ {base args types}, ok (.typeReference base args) → base.core? = none →
    (∀ type ∈ types, plain type) → plain ⟨declaredName base, types⟩
  repeated : ∀ {element type}, ok (.repeatedType element) → plain type → plain (.repeated type)
  param : ∀ {type}, plain type → param (.repeated type)

namespace TypeRules

variable {ok : Node → Prop} {plain param : HostType → Prop} {head : Head}

theorem any (rules : TypeRules ok plain param) : plain .any := rules.core "any" .inner

theorem dynamic (rules : TypeRules ok plain param) : plain .dynamic := rules.core "dynamic" .outer

theorem unit (rules : TypeRules ok plain param) : plain .unit := rules.core "void" .outer

mutual

theorem hostType (rules : TypeRules ok plain param) (node : Node) (fit : node.Throughout ok)
    (position : Position) : plain (node.hostType position) := by
  cases node with
  | typeReference base args =>
    unfold Node.hostType
    split
    · split
      · exact rules.core _ position
      · exact rules.any
    · next declared =>
      exact rules.declared fit.self declared (rules.hostTypes args fit.of_inner)
  | functionType s => exact rules.functionType s fit.of_inner
  | repeatedType element =>
    exact rules.repeated fit.self (rules.hostType element fit.of_inner .inner)
  | _ => exact rules.any

theorem functionType (rules : TypeRules ok plain param) (s : Signature)
    (fit : ∀ part ∈ s.inner, ok part) : plain s.functionType := by
  obtain ⟨typeParams, params, result⟩ := s
  cases result with
  | none => exact rules.any
  | some result =>
    simp only [Signature.inner, List.mem_append] at fit
    unfold Signature.functionType
    split
    · exact rules.function
    · next plainly =>
      have single : ∀ p ∈ params, p.isRepeated = false := by
        simp only [Bool.or_eq_true, List.any_eq_true, not_or, not_exists, not_and,
          Bool.not_eq_true] at plainly
        exact plainly.2
      exact rules.functionOf
        (rules.paramTypes params single fun part there => fit part (.inl (.inr there)))
        (rules.hostType result (fun part there => fit part (.inr there)) .inner)

theorem hostTypes (rules : TypeRules ok plain param) (nodes : List Node)
    (fit : ∀ part ∈ Ambient.partsOf nodes, ok part) : ∀ type ∈ hostTypes nodes, plain type := by
  cases nodes with
  | nil => nofun
  | cons node nodes =>
    intro type member
    rcases List.mem_cons.mp member with rfl | later
    · exact rules.hostType node (fun part there => fit part (List.mem_append_left _ there)) .inner
    · exact rules.hostTypes nodes (fun part there => fit part (List.mem_append_right _ there))
        type later

theorem paramTypes (rules : TypeRules ok plain param) (params : List Ambient.Param)
    (single : ∀ p ∈ params, p.isRepeated = false)
    (fit : ∀ part ∈ Ambient.paramParts params, ok part) :
    ∀ type ∈ paramTypes params, plain type := by
  cases params with
  | nil => nofun
  | cons p params =>
    intro type member
    have later := rules.paramTypes params (fun q listed => single q (.tail _ listed))
      fun part there => fit part (List.mem_append_right _ there)
    obtain ⟨name, optional, declared⟩ := p
    cases declared with
    | none =>
      rcases List.mem_cons.mp member with rfl | listed
      · exact rules.any
      · exact later type listed
    | some node =>
      rcases List.mem_cons.mp member with rfl | listed
      · have plainly : node.isRepeated = false := single _ (.head _)
        refine rules.hostType node (fun part there => fit part ?_) .inner
        rw [Ambient.paramParts, Ambient.Param.inner_of_not_repeated plainly]
        exact List.mem_append_left _ there
      · exact later type listed

end

theorem ofAmbient (rules : TypeRules ok plain param) (p : Ambient.Param)
    (fit : ∀ part ∈ p.inner, ok part) :
    plain (Param.ofAmbient p).type ∨ param (Param.ofAmbient p).type := by
  obtain ⟨name, optional, declared⟩ := p
  cases declared with
  | none => exact .inl rules.any
  | some node =>
    cases repeated : node.isRepeated with
    | false =>
      rw [Ambient.Param.inner_of_not_repeated repeated] at fit
      exact .inl (rules.hostType node fit .inner)
    | true =>
      cases node with
      | repeatedType element => exact .inr (rules.param (rules.hostType element fit .inner))
      | _ => contradiction

theorem typeParam (rules : TypeRules ok plain param) {p : Ambient.TypeParam}
    (fit : ∀ part ∈ p.inner, ok part) : ∀ bound ∈ (TypeParam.ofAmbient p).bound, plain bound := by
  intro type member
  obtain ⟨node, bound, rfl⟩ := Option.map_eq_some_iff.mp member
  exact rules.hostType node (p.throughout_bound fit node bound) .inner

/-- The result is left to the caller: a constructor does not use its own. -/
theorem method (rules : TypeRules ok plain param) {s : Signature} {name : String}
    (typeParams : ∀ p ∈ s.typeParams, ∀ part ∈ p.inner, ok part)
    (params : ∀ p ∈ s.params, ∀ part ∈ p.inner, ok part) (result : plain (s.method name).result) :
    (Charter.ofTypes plain param).method head (s.method name) := by
  refine ⟨fun p member => ?_, fun p member => ?_, result⟩
  · obtain ⟨q, listed, rfl⟩ := List.mem_map.mp member
    exact rules.typeParam (typeParams q listed)
  · obtain ⟨q, listed, rfl⟩ := List.mem_map.mp member
    exact (rules.ofAmbient q (params q listed)).imp_right fun special => ⟨rfl, special⟩

theorem entry (rules : TypeRules ok plain param) {s : Signature}
    (fit : ∀ part ∈ s.inner, ok part) (name : String) :
    (Charter.ofTypes plain param).Admits head (s.entry name) := by
  obtain ⟨typeParams, params, result⟩ := s.throughout fit
  unfold Signature.entry
  split
  · trivial
  · refine rules.method typeParams params ?_
    simp only [Signature.method]
    cases declared : s.result with
    | none => exact rules.dynamic
    | some node => exact rules.hostType node (result node declared) .outer

theorem constructorEntry (rules : TypeRules ok plain param) {s : Signature}
    (fit : ∀ part ∈ s.inner, ok part) :
    (Charter.ofTypes plain param).Admits head s.constructorEntry := by
  unfold Signature.constructorEntry Signature.entry
  split
  · trivial
  · exact rules.method nofun (s.throughout fit).2.1 rules.unit

theorem member (rules : TypeRules ok plain param) (kind : Kind) {node : Node}
    (fit : node.Throughout ok) : (Charter.ofTypes plain param).AdmitsMember kind node where
  entries entry member head _ := by
    cases Node.brings_of_mem member with
    | call s | function name optional s => exact rules.entry fit.of_inner _
    | property optional type other => exact rules.hostType type fit.of_inner .inner
    | @accessor name index value m listed =>
      have key := rules.hostType index
        (fun part there => fit.of_inner part (List.mem_append_left _ there)) .inner
      have content := rules.hostType value
        (fun part there => fit.of_inner part (List.mem_append_right _ there)) .inner
      simp only [Ambient.accessors, List.mem_cons, List.not_mem_nil, or_false] at listed
      rcases listed with rfl | rfl
      · exact ⟨nofun, by simpa using key, content⟩
      · exact ⟨nofun, by simpa using ⟨key, content⟩, rules.unit⟩
    | placeholder => trivial
  constructor s same _ _ := by
    subst node
    exact rules.constructorEntry fit.of_inner

theorem single (rules : TypeRules ok plain param) {node : Node} {entry : Entry}
    (fit : node.Throughout ok) (single : node.single? = some entry) :
    (Charter.ofTypes plain param).Admits head entry := by
  cases Node.stands_of_single single with
  | typed name type => exact rules.hostType type fit.of_inner .outer
  | untyped name => exact rules.dynamic
  | function name s => exact rules.entry fit.of_inner name
  | placeholder => trivial

theorem covers (rules : TypeRules ok plain param) :
    (Charter.ofTypes plain param).Covers (Node.Throughout ok) :=
  Charter.covers_throughout (fun fit single _ => rules.single fit single)
    (fun kind _ fit => rules.member kind fit) (fun _ fit => rules.typeParam fit) rules.hostTypes

/-- Every type in the tree of suitable declarations qualifies. -/
theorem keeps_importTree (rules : TypeRules ok plain param) {declarations : List Node}
    (fit : ∀ node ∈ declarations, node.Throughout ok) {c : Container}
    (inside : c.Inside (importTree declarations).container) :
    c.Keeps (Charter.ofTypes plain param) :=
  obeys_importTree rules.covers fit c inside

end TypeRules

/-! ## Names without parts -/

/-- No name in a type is empty, at any depth. -/
def HostType.Named (type : HostType) : Prop := ∀ q ∈ type.names, q.parts ≠ []

theorem HostType.named_mk {name : QualifiedName} {args : List HostType} :
    (HostType.mk name args).Named ↔ name.parts ≠ [] ∧ ∀ arg ∈ args, arg.Named := by
  simp only [Named, names, List.forall_mem_cons, mem_namesOf, forall_exists_index, and_imp]
  exact and_congr_right fun _ =>
    ⟨fun all arg member q => all q arg member, fun all q arg member => all arg member q⟩

theorem parts_declaredName_ne_nil (base : Ambient.TypeBase) : (declaredName base).parts ≠ [] := by
  cases base with
  | simple name =>
    dsimp only [declaredName]
    split
    · decide
    · decide
    · exact List.cons_ne_nil _ _
  | qualified q => exact List.append_ne_nil_of_right_ne_nil _ (List.cons_ne_nil _ _)

theorem named_repeated {element : HostType} (named : element.Named) :
    (HostType.repeated element).Named :=
  HostType.named_mk.mpr ⟨List.cons_ne_nil _ _, fun _ member => List.mem_singleton.mp member ▸ named⟩

theorem namedRules : TypeRules (fun _ => True) HostType.Named HostType.Named where
  core name position q member := by
    rw [names_coreType, List.mem_singleton] at member
    subst member
    unfold coreType
    split
    · cases position <;> decide
    all_goals decide
  function := by
    unfold HostType.Named
    decide
  functionOf named named' := HostType.named_mk.mpr
    ⟨List.append_ne_nil_of_right_ne_nil _ (List.cons_ne_nil _ _), fun type member =>
      (List.mem_append.mp member).elim (named type) fun last =>
        List.mem_singleton.mp last ▸ named'⟩
  declared _ _ named := HostType.named_mk.mpr ⟨parts_declaredName_ne_nil _, named⟩
  repeated _ := named_repeated
  param := named_repeated

theorem named_hostType (node : Node) (position : Position) : (node.hostType position).Named :=
  namedRules.hostType node (fun _ _ => trivial) position

end Facade
