import Facade.Proofs.Charter
import Facade.Proofs.Names

/-! Where the dynamic type goes. It stands for `any` in outer positions and for results and
variables without a type, and so it is found in a tree only where a variable of a package or the
result of a method is of that very type, if nobody asked for it by name. -/
namespace Facade
open Ambient (Node TypeBase Signature)

/-- The dynamic type occurs in a type, at any depth. -/
def HostType.MentionsDynamic (type : HostType) : Prop := HostType.dynamic.name ∈ type.names

/-- A reference that does not ask for the dynamic type: neither by its core name nor by a path
from the root of the host language. -/
def Ambient.TypeBase.Modest : TypeBase → Prop
  | .simple name => name ≠ .core "dynamic"
  | .qualified q => q.qualifier.head? ≠ some "_root_"

instance (base : TypeBase) : Decidable base.Modest := by
  cases base <;> exact inferInstanceAs (Decidable (_ ≠ _))

def Ambient.Node.Modest (node : Node) : Prop := ∀ base ∈ node.bases, base.Modest

instance (node : Node) : Decidable node.Modest :=
  inferInstanceAs (Decidable (∀ base ∈ node.bases, base.Modest))

theorem declaredName_ne_dynamic {base : TypeBase} (modest : base.Modest) :
    declaredName base ≠ HostType.dynamic.name := by
  cases base with
  | simple name =>
    dsimp only [declaredName]
    split
    · decide
    · decide
    · simp [HostType.dynamic, QualifiedName.dot, QualifiedName.scalaJS]
  | qualified q =>
    obtain ⟨qualifier, name⟩ := q
    intro same
    cases qualifier with
    | nil => simp [declaredName, HostType.dynamic, QualifiedName.dot, QualifiedName.scalaJS] at same
    | cons first rest =>
      obtain ⟨rfl, _⟩ := List.cons.inj (QualifiedName.mk.inj same)
      exact modest rfl

theorem coreType_ne_dynamic {name : String} (other : name ≠ "dynamic") :
    (coreType name .inner).name ≠ HostType.dynamic.name := by
  unfold coreType
  split
  case h_7 => exact absurd rfl other
  all_goals decide

theorem functionOf_ne_dynamic (arity : Nat) :
    QualifiedName.functionOf arity ≠ HostType.dynamic.name := by
  intro same
  have last := List.append_cancel_left (QualifiedName.mk.inj same)
  have text := congrArg String.toList (List.cons.inj last).1
  simp [String.toList_append] at text

/-- A name of a type in an inner position is the dynamic type only if that was asked for. -/
theorem Sourced.ne_dynamic {bases : List TypeBase} {q : QualifiedName} (sourced : Sourced bases q)
    (modest : ∀ base ∈ bases, base.Modest) : q ≠ HostType.dynamic.name := by
  cases sourced with
  | @declared base member _ => exact declaredName_ne_dynamic (modest base member)
  | @core name member =>
    have other : Ambient.TypeName.core name ≠ .core "dynamic" := modest _ member
    exact coreType_ne_dynamic fun same => other (same ▸ rfl)
  | any | function | repeated => decide
  | functionOf arity => exact functionOf_ne_dynamic arity

namespace Ambient

variable {node : Node}

theorem Node.Modest.inner (modest : node.Modest) : ¬ (node.hostType .inner).MentionsDynamic :=
  fun mentions => (sourced_hostType node _ mentions).ne_dynamic modest rfl

/-- In an outer position the dynamic type is not inside a type, either. -/
theorem Node.Modest.outer (modest : node.Modest)
    (mentions : (node.hostType .outer).MentionsDynamic) : node.hostType .outer = .dynamic := by
  by_cases same : node.hostType .outer = node.hostType .inner
  · rw [same] at mentions
    exact absurd mentions modest.inner
  · have any : node = .core "any" := Classical.not_not.mp fun other =>
      same ((hostType_outer node).mpr other)
    rw [any]
    rfl

theorem modest_core {name : String} (other : name ≠ "dynamic") : (Node.core name).Modest := by
  intro base member
  obtain rfl := List.mem_singleton.mp member
  exact fun same => other (TypeName.core.inj same)

end Ambient

/-- The dynamic type is the whole type of a field of a package, or the whole result of a method
that is no accessor. -/
def Charter.dynamic : Charter where
  parent type := ¬ type.MentionsDynamic
  typeParam p := ∀ bound ∈ p.bound, ¬ bound.MentionsDynamic
  field head _ type := type.MentionsDynamic → head.key.kind = .package ∧ type = .dynamic
  method _ m := (∀ p ∈ m.typeParams, ∀ bound ∈ p.bound, ¬ bound.MentionsDynamic) ∧
    (∀ p ∈ m.params, ¬ p.type.MentionsDynamic) ∧
    (m.result.MentionsDynamic → m.bracket = false ∧ m.result = .dynamic)
  field_grows grows allowed mentions := by
    rw [grows.key]
    exact allowed mentions
  method_grows _ := id

namespace Charter

variable {head : Head}

theorem dynamic_typeParam (p : Ambient.TypeParam) (modest : ∀ base ∈ p.bases, base.Modest) :
    dynamic.typeParam (.ofAmbient p) := by
  obtain ⟨name, bound⟩ := p
  intro type member
  obtain ⟨node, rfl, rfl⟩ := Option.map_eq_some_iff.mp member
  exact (show node.Modest from modest).inner

theorem dynamic_param (p : Ambient.Param) (modest : ∀ base ∈ p.bases, base.Modest) :
    ¬ (Param.ofAmbient p).type.MentionsDynamic := by
  obtain ⟨name, optional, type⟩ := p
  cases type with
  | none => exact (Ambient.modest_core (show "any" ≠ "dynamic" by decide)).inner
  | some node => exact (show node.Modest from modest).inner

theorem dynamic_entry (s : Signature) (modest : ∀ base ∈ s.bases, base.Modest) (name : String) :
    dynamic.Admits head (s.entry name) := by
  obtain ⟨typeParams, params, result⟩ := s
  simp only [Ambient.Signature.bases, List.mem_append] at modest
  unfold Signature.entry
  split
  · trivial
  · refine ⟨fun p member => ?_, fun p member => ?_, ?_⟩
    · obtain ⟨q, listed, rfl⟩ := List.mem_map.mp member
      exact dynamic_typeParam q fun base there =>
        modest base (.inl (.inl (Ambient.mem_typeParamBases.mpr ⟨q, listed, there⟩)))
    · obtain ⟨q, listed, rfl⟩ := List.mem_map.mp member
      exact dynamic_param q fun base there =>
        modest base (.inl (.inr (Ambient.mem_paramBases.mpr ⟨q, listed, there⟩)))
    · intro mentions
      refine ⟨rfl, ?_⟩
      cases result with
      | none => rfl
      | some node =>
        have modest' : node.Modest := fun base there => modest base (.inr there)
        exact modest'.outer mentions

theorem dynamic_accessors {name : String} {index value : HostType}
    (modest : ¬ index.MentionsDynamic) (modest' : ¬ value.MentionsDynamic) :
    ∀ m ∈ Ambient.accessors name index value, dynamic.method head m := by
  intro m member
  simp only [Ambient.accessors, List.mem_cons, List.not_mem_nil, or_false] at member
  rcases member with rfl | rfl
  · exact ⟨nofun, by simpa using modest, fun mentions => absurd mentions modest'⟩
  · have unit : ¬ HostType.unit.MentionsDynamic := by
      unfold HostType.MentionsDynamic
      decide
    exact ⟨nofun, by simpa using ⟨modest, modest'⟩, fun mentions => absurd mentions unit⟩

theorem dynamic_member (kind : Kind) {node : Node} (modest : node.Modest) :
    dynamic.AdmitsMember kind node where
  entries entry member head _ := by
    cases node with
    | callMember s =>
      obtain rfl := List.mem_singleton.mp member
      exact dynamic_entry s modest _
    | functionMember name optional s =>
      obtain rfl := List.mem_singleton.mp member
      exact dynamic_entry s modest _
    | propertyMember name optional type =>
      simp only [Node.entries] at member
      split at member
      · contradiction
      · obtain rfl := List.mem_singleton.mp member
        exact fun mentions => absurd mentions (show type.Modest from modest).inner
    | indexMember name index value =>
      obtain ⟨m, listed, rfl⟩ := List.mem_map.mp member
      have index' : index.Modest := fun base there => modest base (List.mem_append_left _ there)
      have value' : value.Modest := fun base there => modest base (List.mem_append_right _ there)
      exact dynamic_accessors index'.inner value'.inner m listed
    | _ =>
      obtain rfl := List.mem_singleton.mp member
      trivial
  constructor s same info _ := by
    subst node
    refine dynamic_entry _ (fun base member => ?_) _
    obtain ⟨typeParams, params, result⟩ := s
    simp only [Ambient.Signature.bases, Ambient.typeParamBases, List.nil_append,
      List.mem_append] at member
    rcases member with param | void
    · exact modest base (List.mem_append_left _ (List.mem_append_right _ param))
    · exact Ambient.modest_core (show "void" ≠ "dynamic" by decide) base void

theorem dynamic_single {node : Node} {entry : Entry} (modest : node.Modest)
    (single : node.single? = some entry) (package : head.key.kind = .package) :
    dynamic.Admits head entry := by
  cases node with
  | varDecl name type =>
    cases type with
    | none =>
      cases single
      exact fun _ => ⟨package, rfl⟩
    | some type =>
      have field : dynamic.Admits head (.field name (type.hostType .outer)) := fun mentions =>
        ⟨package, (show type.Modest from modest).outer mentions⟩
      cases type with
      | objectType members => contradiction
      | _ => cases single; exact field
  | functionDecl name s =>
    cases single
    exact dynamic_entry s modest name
  | typeDecl name type => cases type <;> cases single <;> trivial
  | _ => cases single <;> trivial

theorem dynamic_covers : dynamic.Covers Node.Modest where
  package modest node member base listed :=
    modest base (Ambient.mem_basesOf.mpr ⟨node, member, listed⟩)
  single modest single _ package := dynamic_single modest single package
  object modest node member := dynamic_member _ fun base listed =>
    modest base (Ambient.mem_basesOf.mpr ⟨node, member, listed⟩)
  record modest node member := dynamic_member _ fun base listed =>
    modest base (Ambient.mem_basesOf.mpr ⟨node, member, listed⟩)
  interface := by
    intro name typeParams parents members modest
    simp only [Node.Modest, Node.bases, List.mem_append] at modest
    refine ⟨fun p member => ?_, fun type member mentions => ?_, fun node member => ?_⟩
    · exact dynamic_typeParam p fun base there =>
        modest base (.inl (.inl (Ambient.mem_typeParamBases.mpr ⟨p, member, there⟩)))
    · have sourced := sourced_hostTypes parents _ (mem_namesOf.mpr ⟨type, member, mentions⟩)
      exact sourced.ne_dynamic (fun base there => modest base (.inl (.inr there))) rfl
    · exact dynamic_member _ fun base there =>
        modest base (.inr (Ambient.mem_basesOf.mpr ⟨node, member, there⟩))

end Charter

/-- Unless it is asked for, the dynamic type is found only as the whole type of a variable of a
package and as the whole result of a method that is no accessor; and whether a type stands in an
outer position matters for `any` alone. -/
theorem dynamic_importTree (declarations : List Node)
    (modest : ∀ node ∈ declarations, ∀ base ∈ node.bases, base.Modest) :
    (∀ c : Container, c.Inside (importTree declarations).container →
      (∀ type ∈ c.head.parents, ¬ type.MentionsDynamic) ∧
      (∀ p ∈ c.head.typeParams, ∀ bound ∈ p.bound, ¬ bound.MentionsDynamic) ∧
      (∀ name type, .field name type ∈ c.members → type.MentionsDynamic →
        c.isPackage = true ∧ type = .dynamic) ∧
      ∀ m, .method m ∈ c.members →
        (∀ p ∈ m.typeParams, ∀ bound ∈ p.bound, ¬ bound.MentionsDynamic) ∧
        (∀ p ∈ m.params, ¬ p.type.MentionsDynamic) ∧
        (m.result.MentionsDynamic → m.bracket = false ∧ m.result = .dynamic)) ∧
    ∀ type : Node, type.hostType .outer = type.hostType .inner ↔ type ≠ .core "any" := by
  refine ⟨fun c inside => ?_, hostType_outer⟩
  have keeps := obeys_importTree Charter.dynamic_covers modest c inside
  refine ⟨keeps.parents, keeps.typeParams, fun name type member mentions => ?_, fun m member =>
    keeps.members (.method m) member⟩
  obtain ⟨package, whole⟩ := keeps.members (.field name type) member mentions
  exact ⟨beq_iff_eq.mpr package, whole⟩

/-- Every place asks for `any`, and two of them are outer positions. -/
theorem dynamic_importTree_any :
    let any : Node := .core "any"
    let called : Signature := ⟨[], [⟨"p", false, some any⟩], some any⟩
    let declarations : List Node := [.varDecl "v" (some any), .functionDecl "f" called,
      .interfaceDecl (.plain "A") [⟨.plain "T", some any⟩] [.named "B" [any]]
        [.indexMember "i" any (.functionType called), .propertyMember "v" false any],
      .varDecl "A" (some (.objectType [.callMember called, .constructorMember called]))]
    let root := (importTree declarations).container
    (∀ node ∈ declarations, ∀ base ∈ node.bases, base.Modest) ∧
      root.members[0]? = some (.field "v" .dynamic) ∧
      ∀ c : Container, c.Inside root → ∀ name type, .field name type ∈ c.members →
        type.MentionsDynamic → c.isPackage = true ∧ type = .dynamic := by
  refine ⟨by decide, rfl, fun c inside => ?_⟩
  exact ((dynamic_importTree _ (by decide)).1 c inside).2.2.1

end Facade
