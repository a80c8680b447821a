import Facade.Proofs.Muted
import Facade.Proofs.Parts

/-! Types written out. An import reads of a type what it translates to and nothing else, so every
type may be replaced by a reference to its translation. Only constant types of parameters matter as
such, and so does the result of a constructor. -/
namespace Facade
open Ambient (Node Signature)

mutual

/-- The reference that names a type by its whole path. -/
def HostType.reference : HostType → Node
  | ⟨name, args⟩ =>
      .typeReference (.qualified ⟨name.parts.dropLast, .plain (name.parts.getLast?.getD "")⟩)
        (references args)

def references : List HostType → List Node
  | [] => []
  | type :: types => type.reference :: references types

end

mutual

theorem hostType_reference (type : HostType) (named : type.Named) (position : Position) :
    type.reference.hostType position = type := by
  obtain ⟨name, args⟩ := type
  obtain ⟨parts, inner⟩ := HostType.named_mk.mp named
  have name' : QualifiedName.mk (name.parts.dropLast ++ [name.parts.getLast?.getD ""]) = name := by
    rw [List.getLast?_eq_some_getLast parts, Option.getD_some, List.dropLast_concat_getLast]
  simp only [HostType.reference, Node.hostType, Ambient.TypeBase.core?, declaredName,
    Ambient.TypeName.text, hostTypes_references args inner, name']

theorem hostTypes_references (types : List HostType) (named : ∀ type ∈ types, type.Named) :
    hostTypes (references types) = types := by
  cases types with
  | nil => rfl
  | cons type types =>
    rw [references, hostTypes, hostType_reference type (named type (.head _)) .inner,
      hostTypes_references types fun other listed => named other (.tail _ listed)]

end

namespace Ambient

/-- A type as a reference to its translation. -/
def Node.spelled (position : Position) (node : Node) : Node := (node.hostType position).reference

theorem Node.hostType_spelled (node : Node) (position position' : Position) :
    (node.spelled position).hostType position' = node.hostType position :=
  hostType_reference _ (named_hostType node position) position'

def TypeParam.explicit (p : TypeParam) : TypeParam :=
  { p with bound := p.bound.map (·.spelled .inner) }

def Param.explicit (p : Param) : Param := { p with type := p.type.map (·.spelled .inner) }

namespace Signature

/-- A signature with a parameter of a constant type is not translated. -/
def isSpecialized (s : Signature) : Bool := s.params.any (·.isConstant)

def explicit (s : Signature) : Signature :=
  if s.isSpecialized then s
  else ⟨s.typeParams.map (·.explicit), s.params.map (·.explicit), s.result.map (·.spelled .outer)⟩

/-- The result of a constructor is compared and not translated. -/
def explicitConstructor (s : Signature) : Signature :=
  if s.isSpecialized then s else { s with params := s.params.map (·.explicit) }

end Signature

def Node.explicitMember : Node → Node
  | .callMember s => .callMember s.explicit
  | .constructorMember s => .constructorMember s.explicitConstructor
  | .indexMember name index value =>
      .indexMember name (index.spelled .inner) (value.spelled .inner)
  | .propertyMember name optional type => .propertyMember name optional (type.spelled .inner)
  | .functionMember name optional s => .functionMember name optional s.explicit
  | node => node

mutual

/-- A declaration with its types written out, as far as they are translated. -/
def Node.explicit : Node → Node
  | .moduleDecl name members => .moduleDecl name (explicitAll members)
  | .varDecl name (some (.objectType members)) =>
      .varDecl name (some (.objectType (members.map (·.explicitMember))))
  | .varDecl name (some type) => .varDecl name (some (type.spelled .outer))
  | .typeDecl name (.objectType members) =>
      .typeDecl name (.objectType (members.map (·.explicitMember)))
  | .interfaceDecl name typeParams parents members =>
      .interfaceDecl name (typeParams.map (·.explicit)) (parents.map (·.spelled .inner))
        (members.map (·.explicitMember))
  | .functionDecl name s => .functionDecl name s.explicit
  | node => node

def explicitAll : List Node → List Node
  | [] => []
  | node :: nodes => node.explicit :: explicitAll nodes

end

theorem explicitAll_eq_map (nodes : List Node) : explicitAll nodes = nodes.map (·.explicit) := by
  induction nodes with
  | nil => rfl
  | cons node nodes ih => rw [explicitAll, ih, List.map_cons]

end Ambient

/-! ## What is read of types -/

theorem Ambient.TypeParam.ofAmbient_explicit (p : Ambient.TypeParam) :
    Facade.TypeParam.ofAmbient p.explicit = .ofAmbient p := by
  simp only [Facade.TypeParam.ofAmbient, explicit, Option.map_map, Function.comp_def,
    Node.hostType_spelled]

theorem TypeParam.map_ofAmbient_explicit (params : List Ambient.TypeParam) :
    (params.map (·.explicit)).map TypeParam.ofAmbient = params.map .ofAmbient := by
  rw [List.map_map]
  exact List.map_congr_left fun p _ => p.ofAmbient_explicit

theorem hostTypes_eq_map (nodes : List Node) : hostTypes nodes = nodes.map (·.hostType .inner) := by
  induction nodes with
  | nil => rfl
  | cons node nodes ih => rw [hostTypes, ih, List.map_cons]

theorem hostTypes_spelled (nodes : List Node) :
    hostTypes (nodes.map (·.spelled .inner)) = hostTypes nodes := by
  simp only [hostTypes_eq_map, List.map_map, Function.comp_def, Node.hostType_spelled]

theorem Ambient.Param.ofAmbient_explicit (p : Ambient.Param) :
    Facade.Param.ofAmbient p.explicit = .ofAmbient p := by
  obtain ⟨name, optional, type⟩ := p
  cases type with
  | none => rfl
  | some node =>
    simp only [Facade.Param.ofAmbient, explicit, typeOrAny, Option.map_some, Option.getD_some,
      Node.hostType_spelled]

theorem HostType.exists_reference (type : HostType) :
    ∃ base args, type.reference = .typeReference base args := by
  obtain ⟨name, args⟩ := type
  exact ⟨_, _, rfl⟩

namespace Ambient

theorem Param.isConstant_explicit (p : Param) : p.explicit.isConstant = false := by
  obtain ⟨name, optional, type⟩ := p
  cases type with
  | none => rfl
  | some node =>
    obtain ⟨base, args, same⟩ := (node.hostType .inner).exists_reference
    simp only [isConstant, typeOrAny, explicit, Option.map_some, Option.getD_some, Node.spelled,
      same, Node.isConstant]

namespace Signature

theorem entry_eq (s : Signature) (name : String) :
    s.entry name = if s.isSpecialized then .specialized name else .method (s.method name) := rfl

theorem not_isSpecialized_explicit (typeParams : List TypeParam) (params : List Param)
    (result : Option Node) : ¬ isSpecialized ⟨typeParams, params.map (·.explicit), result⟩ := by
  simp only [isSpecialized, List.any_eq_true, List.mem_map]
  rintro ⟨_, ⟨p, _, rfl⟩, constant⟩
  rw [p.isConstant_explicit] at constant
  contradiction

theorem map_ofAmbient_explicit (params : List Param) :
    (params.map (·.explicit)).map Facade.Param.ofAmbient = params.map .ofAmbient := by
  rw [List.map_map]
  exact List.map_congr_left fun p _ => p.ofAmbient_explicit

theorem entry_explicit (s : Signature) (name : String) : s.explicit.entry name = s.entry name := by
  unfold explicit
  split
  · rfl
  · next translated =>
    rw [entry_eq, entry_eq, if_neg translated, if_neg (not_isSpecialized_explicit _ _ _)]
    obtain ⟨typeParams, params, result⟩ := s
    simp only [method, TypeParam.map_ofAmbient_explicit, map_ofAmbient_explicit]
    cases result with
    | none => rfl
    | some node => simp only [Option.map_some, Option.getD_some, Node.hostType_spelled]

theorem constructorEntry_explicit (s : Signature) :
    s.explicitConstructor.constructorEntry = s.constructorEntry := by
  unfold explicitConstructor
  split
  · rfl
  · next translated =>
    have translated' : ¬ isSpecialized ⟨[], s.params, some (.core "void")⟩ = true := translated
    unfold constructorEntry
    rw [entry_eq, entry_eq, if_neg translated', if_neg (not_isSpecialized_explicit _ _ _)]
    simp only [method, map_ofAmbient_explicit]

theorem result_explicitConstructor (s : Signature) : s.explicitConstructor.result = s.result := by
  unfold explicitConstructor
  split <;> rfl

end Signature

theorem Node.explicitMember_ne {node : Node} (plain : ∀ s, node ≠ .constructorMember s) :
    ∀ s, node.explicitMember ≠ .constructorMember s := by
  cases node with
  | constructorMember s => exact absurd rfl (plain s)
  | _ => nofun

theorem Node.entries_explicitMember (node : Node)
    (plain : ∀ s, node ≠ .constructorMember s) : node.explicitMember.entries = node.entries := by
  cases node with
  | callMember s => exact congrArg ([·]) (s.entry_explicit _)
  | functionMember name optional s => exact congrArg ([·]) (s.entry_explicit _)
  | propertyMember name optional type =>
    simp only [explicitMember, entries, hostType_spelled]
  | indexMember name index value =>
    simp only [explicitMember, entries, hostType_spelled]
  | constructorMember s => exact absurd rfl (plain s)
  | _ => rfl

theorem Node.single?_spelled (name : String) (type : Node) :
    (varDecl name (some (type.spelled .outer))).single? =
      some (.field name (type.hostType .outer)) := by
  have field := congrArg (Entry.field name) (type.hostType_spelled .outer .outer)
  rw [← field]
  obtain ⟨base, args, same⟩ := (type.hostType .outer).exists_reference
  rw [spelled, same]
  rfl

theorem Node.single?_explicit (node : Node) : node.explicit.single? = node.single? := by
  cases node with
  | varDecl name type =>
    cases type with
    | none => rfl
    | some type =>
      cases type with
      | objectType members => rfl
      | _ => exact single?_spelled name _
  | typeDecl name type => cases type <;> rfl
  | functionDecl name s => exact congrArg some (s.entry_explicit name)
  | _ => rfl

end Ambient

/-! ## Two imports side by side -/

theorem Walk.member_of_ne {node : Node} (plain : ∀ s, node ≠ .constructorMember s) (w : Walk)
    (site : Site) : w.member site node = w.enterAt site.owner node.entries := by
  unfold member
  split
  · exact absurd rfl (plain _)
  · rfl

namespace Walk.Matches

variable {w v : Walk}

theorem member (same : w.Matches v) (k : Key) (node : Node) :
    (w.member ⟨[], [k]⟩ node).Matches (v.member ⟨[], [k]⟩ node.explicitMember) := by
  by_cases constructs : ∃ s, node = .constructorMember s
  · obtain ⟨s, rfl⟩ := constructs
    exact same.constructor k s.constructorEntry_explicit.symm s.result_explicitConstructor.symm
  · have plain : ∀ s, node ≠ .constructorMember s := fun s here => constructs ⟨s, here⟩
    rw [member_of_ne plain, member_of_ne (Node.explicitMember_ne plain),
      node.entries_explicitMember plain]
    exact same.enterAt k fun _ _ inner => inner.enterAll _

theorem members (same : w.Matches v) (k : Key) (nodes : List Node) :
    (w.members ⟨[], [k]⟩ nodes).Matches (v.members ⟨[], [k]⟩ (nodes.map (·.explicitMember))) := by
  induction nodes generalizing w v with
  | nil => exact same
  | cons node nodes ih => exact ih (same.member k node)

end Walk.Matches

namespace Container

variable {c d : Container}

theorem Matches.walkBody (same : c.Matches d) (k : Key) (members : List Node) :
    (c.walkBody ⟨[], [k]⟩ members).Matches
      (d.walkBody ⟨[], [k]⟩ (members.map (·.explicitMember))) := by
  have begun : Walk.Matches { tree := c } { tree := d } := ⟨same, rfl, rfl⟩
  have ended := begun.members k members
  exact ⟨ended.tree, ended.notes⟩

theorem Matches.fill (same : c.Matches d) (k : Key) (members : List Node) :
    (c.fill k members).Matches (d.fill k (members.map (·.explicitMember))) :=
  (same.ensure k).walkBody k members

theorem Matches.declareInterface (same : c.Matches d) (name : String)
    (typeParams : List TypeParam) (parents : List HostType) (members : List Node) :
    (c.declareInterface name typeParams parents members).Matches
      (d.declareInterface name typeParams parents (members.map (·.explicitMember))) := by
  rw [declareInterface_eq, declareInterface_eq]
  exact (same.extendClass name typeParams parents).walkBody _ members

theorem Matches.declare_flat (same : c.Matches d) {node : Node}
    (flat : ∀ name members, node ≠ .moduleDecl name members) :
    (c.declare node).toEdit.Matches (d.declare node.explicit).toEdit := by
  cases node.form with
  | package name members => exact absurd rfl (flat name members)
  | object name members => exact same.fill ⟨.object, name⟩ members
  | record name members => exact same.fill ⟨.classOrTrait, name.text⟩ members
  | interface name typeParams parents members =>
    simp only [Node.explicit, declare, TypeParam.map_ofAmbient_explicit, hostTypes_spelled]
    exact same.declareInterface _ _ _ members
  | single single =>
    rw [declare_single single, declare_single (node.single?_explicit.trans single)]
    exact same.enter _

mutual

theorem Matches.declare {c d : Container} (same : c.Matches d) (sound : c.Sound) (sound' : d.Sound)
    (package : c.isPackage = true) (node : Node) :
    (c.declare node).toEdit.Matches (d.declare node.explicit).toEdit := by
  cases node with
  | moduleDecl name members =>
    have package' : d.isPackage = true := same.isPackage.symm.trans package
    obtain ⟨inner, found, innerSound, innerPackage⟩ := sound.exists_opened name
    obtain ⟨inner', found', innerSound', _⟩ := sound'.exists_opened name
    have opened := same.ensure ⟨.package, name⟩
    have within : inner.Matches inner' := opened.of_find? found found'
    have walked := within.declareAll innerSound innerSound' innerPackage members
    simp only [Node.explicit, Container.declare, package, package', found, found', ↓reduceIte]
    exact ⟨opened.replace walked.1 _, walked.2⟩
  | _ => exact same.declare_flat nofun

theorem Matches.declareAll {c d : Container} (same : c.Matches d) (sound : c.Sound)
    (sound' : d.Sound) (package : c.isPackage = true) (nodes : List Node) :
    (c.declareAll nodes).toEdit.Matches (d.declareAll (Ambient.explicitAll nodes)).toEdit := by
  cases nodes with
  | nil => exact ⟨same, rfl⟩
  | cons node nodes =>
    have package' : d.isPackage = true := same.isPackage.symm.trans package
    have evolves := evolves_declare c node
    have evolves' := evolves_declare d node.explicit
    have first := same.declare sound sound' package node
    have rest := first.1.declareAll (evolves.sound sound) (evolves'.sound sound')
      (evolves.isPackage.trans package) nodes
    rw [Ambient.explicitAll, declareAll_cons sound package, declareAll_cons sound' package']
    have notes := congr (congrArg (· ++ ·) first.2) rest.2
    exact ⟨rest.1, notes⟩

end

end Container

/-- Written out, the types of declarations make no difference but in the texts of comments. -/
theorem matches_importTree_explicit (declarations : List Node) :
    (importTree declarations).toEdit.Matches
      (importTree (declarations.map (·.explicit))).toEdit := by
  have sound := Container.sound_root
  have whole := (Container.Matches.refl .root).declareAll sound sound rfl declarations
  rwa [Ambient.explicitAll_eq_map] at whole

end Facade
