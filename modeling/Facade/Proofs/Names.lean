import Facade.HostType.OfAmbient

/-! The names inside types. Every name of a translated type is declared by a reference in what
was translated, is the counterpart of a core name there, or belongs to the few types of the host
library that stand for shapes without a name. -/
namespace Facade
open Ambient (Node TypeBase)

mutual

/-- The names in a type, at any depth. -/
def HostType.names : HostType → List QualifiedName
  | ⟨name, args⟩ => name :: namesOf args

def namesOf : List HostType → List QualifiedName
  | [] => []
  | type :: types => type.names ++ namesOf types

end

/-- What is gathered along a list comes from one of its items. -/
theorem mem_gathered {α β : Type} {one : α → List β} {all : List α → List β} {b : β}
    (nil : all [] = []) (cons : ∀ a as, all (a :: as) = one a ++ all as) {as : List α} :
    b ∈ all as ↔ ∃ a ∈ as, b ∈ one a := by
  induction as with
  | nil => simp [nil]
  | cons a as ih => simp only [cons, List.mem_append, ih, List.mem_cons, exists_eq_or_imp]

theorem mem_namesOf {q : QualifiedName} {types : List HostType} :
    q ∈ namesOf types ↔ ∃ type ∈ types, q ∈ type.names := mem_gathered rfl fun _ _ => rfl

namespace Ambient

mutual

/-- The bases of the type references in a node, at any depth. -/
def Node.bases : Node → List TypeBase
  | .typeParam param => param.bases
  | .param param => param.bases
  | .signature signature => signature.bases
  | .typeReference base args => base :: basesOf args
  | .objectType members => basesOf members
  | .functionType signature => signature.bases
  | .repeatedType element => element.bases
  | .unionType left right => left.bases ++ right.bases
  | .tupleType elements => basesOf elements
  | .callMember signature => signature.bases
  | .constructorMember signature => signature.bases
  | .indexMember _ index value => index.bases ++ value.bases
  | .propertyMember _ _ type => type.bases
  | .functionMember _ _ signature => signature.bases
  | .moduleDecl _ members => basesOf members
  | .varDecl _ type => optionBases type
  | .typeDecl _ type => type.bases
  | .interfaceDecl _ typeParams parents members =>
      typeParamBases typeParams ++ basesOf parents ++ basesOf members
  | .functionDecl _ signature => signature.bases
  | .classDecl _ typeParams parent interfaces members =>
      typeParamBases typeParams ++ optionBases parent ++ basesOf interfaces ++ basesOf members
  | _ => []

def TypeParam.bases : TypeParam → List TypeBase
  | ⟨_, bound⟩ => optionBases bound

def Param.bases : Param → List TypeBase
  | ⟨_, _, type⟩ => optionBases type

def Signature.bases : Signature → List TypeBase
  | ⟨typeParams, params, result⟩ =>
      typeParamBases typeParams ++ paramBases params ++ optionBases result

def basesOf : List Node → List TypeBase
  | [] => []
  | node :: nodes => node.bases ++ basesOf nodes

def optionBases : Option Node → List TypeBase
  | none => []
  | some node => node.bases

def typeParamBases : List TypeParam → List TypeBase
  | [] => []
  | param :: params => param.bases ++ typeParamBases params

def paramBases : List Param → List TypeBase
  | [] => []
  | param :: params => param.bases ++ paramBases params

end

variable {base : TypeBase}

theorem mem_basesOf {nodes : List Node} :
    base ∈ basesOf nodes ↔ ∃ node ∈ nodes, base ∈ node.bases := mem_gathered rfl fun _ _ => rfl

theorem mem_typeParamBases {params : List TypeParam} :
    base ∈ typeParamBases params ↔ ∃ param ∈ params, base ∈ param.bases :=
  mem_gathered rfl fun _ _ => rfl

theorem mem_paramBases {params : List Param} :
    base ∈ paramBases params ↔ ∃ param ∈ params, base ∈ param.bases :=
  mem_gathered rfl fun _ _ => rfl

theorem TypeBase.core?_eq_some {name : String} :
    base.core? = some name ↔ base = .simple (.core name) := by
  cases base with
  | simple typeName => cases typeName <;> simp [core?]
  | qualified q => simp [core?]

end Ambient

/-- What a name in a translated type may be, if these are the bases of the references there. -/
inductive Sourced (bases : List TypeBase) : QualifiedName → Prop where
  | declared {base : TypeBase} :
      base ∈ bases → base.core? = none → Sourced bases (declaredName base)
  | core {name : String} :
      .simple (.core name) ∈ bases → Sourced bases (coreType name .inner).name
  | any : Sourced bases HostType.any.name
  | function : Sourced bases .function
  | functionOf (arity : Nat) : Sourced bases (.functionOf arity)
  | repeated : Sourced bases .repeated

theorem Sourced.mono {bases more : List TypeBase} {q : QualifiedName} (sourced : Sourced bases q)
    (included : bases ⊆ more) : Sourced more q := by
  cases sourced with
  | declared member plain => exact .declared (included member) plain
  | core member => exact .core (included member)
  | any => exact .any
  | function => exact .function
  | functionOf arity => exact .functionOf arity
  | repeated => exact .repeated

theorem args_coreType (name : String) (position : Position) :
    (coreType name position).args = [] := by
  unfold coreType
  split
  · cases position <;> rfl
  all_goals rfl

theorem HostType.names_of_args_eq_nil {type : HostType} (bare : type.args = []) :
    type.names = [type.name] := by
  obtain ⟨name, args⟩ := type
  obtain rfl : args = [] := bare
  rfl

theorem names_coreType (name : String) (position : Position) :
    (coreType name position).names = [(coreType name position).name] :=
  HostType.names_of_args_eq_nil (args_coreType name position)

theorem names_functionOf (params : List HostType) (result : HostType) :
    (HostType.functionOf params result).names =
      .functionOf params.length :: namesOf (params ++ [result]) := rfl

mutual

theorem sourced_hostType (node : Node) :
    ∀ q ∈ (node.hostType .inner).names, Sourced node.bases q := by
  cases node with
  | typeReference base args =>
    intro q member
    unfold Node.hostType at member
    split at member
    · next name core =>
      obtain rfl := Ambient.TypeBase.core?_eq_some.mp core
      split at member
      · rw [names_coreType, List.mem_singleton] at member
        exact member ▸ .core (.head _)
      · obtain rfl := List.mem_singleton.mp member
        exact .any
    · next plain =>
      rcases List.mem_cons.mp member with rfl | inner
      · exact .declared (.head _) plain
      · exact (sourced_hostTypes args q inner).mono (List.subset_cons_self _ _)
  | functionType signature => exact sourced_functionType signature
  | repeatedType element =>
    intro q member
    unfold Node.hostType HostType.repeated HostType.names namesOf at member
    rcases List.mem_cons.mp member with rfl | inner
    · exact .repeated
    · rw [namesOf, List.append_nil] at inner
      exact sourced_hostType element q inner
  | _ =>
    intro q member
    obtain rfl := List.mem_singleton.mp member
    exact .any

theorem sourced_functionType (signature : Ambient.Signature) :
    ∀ q ∈ signature.functionType.names, Sourced signature.bases q := by
  obtain ⟨typeParams, params, result⟩ := signature
  cases result with
  | none =>
    intro q member
    obtain rfl := List.mem_singleton.mp member
    exact .any
  | some result =>
    intro q member
    unfold Ambient.Signature.functionType at member
    split at member
    · obtain rfl := List.mem_singleton.mp member
      exact .function
    · rw [names_functionOf, List.mem_cons, mem_namesOf] at member
      rcases member with rfl | ⟨type, there, inner⟩
      · exact .functionOf _
      · rcases List.mem_append.mp there with param | same
        · have sourced := sourced_paramTypes params q (mem_namesOf.mpr ⟨type, param, inner⟩)
          exact sourced.mono fun base listed => by
            simp only [Ambient.Signature.bases, List.mem_append, listed, or_true, true_or]
        · obtain rfl := List.mem_singleton.mp same
          exact (sourced_hostType result q inner).mono fun base listed => by
            simp only [Ambient.Signature.bases, Ambient.optionBases, List.mem_append, listed,
              or_true]

theorem sourced_hostTypes (nodes : List Node) :
    ∀ q ∈ namesOf (hostTypes nodes), Sourced (Ambient.basesOf nodes) q := by
  cases nodes with
  | nil => nofun
  | cons node nodes =>
    intro q member
    rcases List.mem_append.mp member with first | rest
    · exact (sourced_hostType node q first).mono (List.subset_append_left _ _)
    · exact (sourced_hostTypes nodes q rest).mono (List.subset_append_right _ _)

theorem sourced_paramTypes (params : List Ambient.Param) :
    ∀ q ∈ namesOf (paramTypes params), Sourced (Ambient.paramBases params) q := by
  cases params with
  | nil => nofun
  | cons param params =>
    obtain ⟨name, optional, type⟩ := param
    cases type with
    | none =>
      intro q member
      rcases List.mem_cons.mp member with rfl | rest
      · exact .any
      · exact (sourced_paramTypes params q rest).mono (List.subset_append_right _ _)
    | some type =>
      intro q member
      rcases List.mem_append.mp member with first | rest
      · exact (sourced_hostType type q first).mono (List.subset_append_left _ _)
      · exact (sourced_paramTypes params q rest).mono (List.subset_append_right _ _)

end

theorem coreType_outer {name : String} (other : name ≠ "any") :
    coreType name .outer = coreType name .inner := by
  unfold coreType
  split
  case h_1 => exact absurd rfl other
  all_goals rfl

/-- The position of a type matters for `any` alone. -/
theorem hostType_outer (node : Node) :
    node.hostType .outer = node.hostType .inner ↔ node ≠ .core "any" := by
  constructor
  · rintro same rfl
    exact absurd same (by decide)
  · intro differ
    cases node with
    | typeReference base args =>
      unfold Node.hostType
      split
      · next name core =>
        obtain rfl := Ambient.TypeBase.core?_eq_some.mp core
        split
        · next none =>
          obtain rfl := List.isEmpty_iff.mp none
          have other : name ≠ "any" := fun same => differ (same ▸ rfl)
          exact coreType_outer other
        · rfl
      · rfl
    | _ => rfl

end Facade
