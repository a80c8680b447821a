import Facade.Proofs.Blocks
import Facade.Proofs.Repeated

/-! Everything that is imported can be written. Only a repeated type without an element cannot be,
and the reserved name `*` comes without one only where a reference asks for it by name. -/
namespace Facade
open Ambient (Node)

/-- Every repeated type in a type has an element. -/
inductive HostType.Writable : HostType → Prop where
  | intro {name : QualifiedName} {args : List HostType} :
      (name = .repeated → args ≠ []) → (∀ arg ∈ args, arg.Writable) → Writable ⟨name, args⟩

/-! ## Types -/

namespace HostType

theorem writable_of_args_eq_nil {type : HostType} (bare : type.args = [])
    (other : type.name ≠ .repeated) : type.Writable := by
  obtain ⟨name, args⟩ := type
  obtain rfl : args = [] := bare
  exact .intro (fun same => absurd same other) nofun

theorem Writable.repeated {element : HostType} (writable : element.Writable) :
    (HostType.repeated element).Writable :=
  .intro (fun _ => List.cons_ne_nil _ _) fun _ member => List.mem_singleton.mp member ▸ writable

theorem exists_writtenAll {types : List HostType}
    (each : ∀ type ∈ types, ∃ text, type.written = .ok text) :
    ∃ texts, writtenAll types = .ok texts := by
  induction types with
  | nil => exact ⟨[], rfl⟩
  | cons type types ih =>
    obtain ⟨text, first⟩ := each type (.head _)
    obtain ⟨texts, rest⟩ := ih fun other listed => each other (.tail _ listed)
    exact ⟨text :: texts, bind_eq_ok.mpr ⟨text, first, bind_eq_ok.mpr ⟨texts, rest, rfl⟩⟩⟩

theorem Writable.exists_written {type : HostType} (writable : type.Writable) :
    ∃ text, type.written = .ok text := by
  induction writable with
  | @intro name args element _ ih =>
    unfold written
    split
    · next same =>
      cases args with
      | nil => exact absurd rfl (element (eq_of_beq same))
      | cons first rest =>
        obtain ⟨text, made⟩ := ih first (.head _)
        exact ⟨_, map_eq_ok.mpr ⟨text, made, rfl⟩⟩
    · obtain ⟨texts, made⟩ := exists_writtenAll ih
      exact ⟨_, map_eq_ok.mpr ⟨texts, made, rfl⟩⟩

end HostType

theorem writableRules : TypeRules Node.Unstarred HostType.Writable HostType.Writable where
  core name position := HostType.writable_of_args_eq_nil (args_coreType name position)
    (coreType_ne_repeated name position)
  function := HostType.writable_of_args_eq_nil rfl (by decide)
  functionOf {params result} writable writable' := by
    refine .intro (fun same => absurd same (functionOf_ne_repeated _)) fun arg member => ?_
    rcases List.mem_append.mp member with param | last
    · exact writable arg param
    · exact List.mem_singleton.mp last ▸ writable'
  declared unstarred declared writable := .intro
    (fun same => absurd same (declaredName_ne_repeated declared unstarred)) writable
  repeated _ := .repeated
  param := .repeated

/-! ## Lines -/

theorem exists_mapM {α β : Type} {f : α → Except TypeFault β} {as : List α}
    (each : ∀ a ∈ as, ∃ b, f a = .ok b) : ∃ bs, as.mapM f = .ok bs := by
  induction as with
  | nil => exact ⟨[], rfl⟩
  | cons a as ih =>
    obtain ⟨b, first⟩ := each a (.head _)
    obtain ⟨bs, rest⟩ := ih fun other listed => each other (.tail _ listed)
    refine ⟨b :: bs, ?_⟩
    rw [List.mapM_cons]
    exact bind_eq_ok.mpr ⟨b, first, bind_eq_ok.mpr ⟨bs, rest, rfl⟩⟩

theorem exists_writtenTypeParams {params : List TypeParam}
    (writable : ∀ p ∈ params, ∀ bound ∈ p.bound, bound.Writable) :
    ∃ text, writtenTypeParams params = .ok text := by
  obtain ⟨texts, made⟩ : ∃ texts, params.mapM TypeParam.written = .ok texts := by
    refine exists_mapM fun p listed => ?_
    unfold TypeParam.written
    cases bounded : p.bound with
    | none => exact ⟨_, rfl⟩
    | some bound =>
      obtain ⟨text, made⟩ := (writable p listed bound bounded).exists_written
      exact ⟨_, map_eq_ok.mpr ⟨text, made, rfl⟩⟩
  exact ⟨_, map_eq_ok.mpr ⟨texts, made, rfl⟩⟩

theorem exists_writtenParams {params : List Param} (writable : ∀ p ∈ params, p.type.Writable) :
    ∃ text, writtenParams params = .ok text := by
  obtain ⟨texts, made⟩ : ∃ texts, params.mapM Param.written = .ok texts := by
    refine exists_mapM fun p listed => ?_
    obtain ⟨text, made⟩ := (writable p listed).exists_written
    exact ⟨_, map_eq_ok.mpr ⟨text, made, rfl⟩⟩
  exact ⟨_, map_eq_ok.mpr ⟨texts, made, rfl⟩⟩

theorem Method.exists_declarationLine {m : Method}
    (typeParams : ∀ p ∈ m.typeParams, ∀ bound ∈ p.bound, bound.Writable)
    (params : ∀ p ∈ m.params, p.type.Writable) (result : m.result.Writable) :
    ∃ text, m.declarationLine = .ok text := by
  obtain ⟨brackets, first⟩ := exists_writtenTypeParams typeParams
  obtain ⟨inner, second⟩ := exists_writtenParams params
  obtain ⟨last, third⟩ := result.exists_written
  exact ⟨_, bind_eq_ok.mpr ⟨brackets, first, bind_eq_ok.mpr ⟨inner, second,
    bind_eq_ok.mpr ⟨last, third, rfl⟩⟩⟩⟩

theorem Method.exists_line {m : Method}
    (typeParams : ∀ p ∈ m.typeParams, ∀ bound ∈ p.bound, bound.Writable)
    (params : ∀ p ∈ m.params, p.type.Writable) (result : m.result.Writable) :
    ∃ text?, m.line? = .ok text? := by
  unfold line?
  split
  · split
    · exact ⟨none, rfl⟩
    · obtain ⟨inner, made⟩ := exists_writtenParams params
      exact ⟨_, map_eq_ok.mpr ⟨inner, made, rfl⟩⟩
  · obtain ⟨text, made⟩ := exists_declarationLine typeParams params result
    exact ⟨_, map_eq_ok.mpr ⟨text, made, rfl⟩⟩

theorem ClassHead.exists_header {info : ClassHead}
    (typeParams : ∀ p ∈ info.typeParams, ∀ bound ∈ p.bound, bound.Writable)
    (parents : ∀ type ∈ info.parents, type.Writable) : ∃ header, info.line = .ok header := by
  obtain ⟨brackets, first⟩ := exists_writtenTypeParams typeParams
  obtain ⟨texts, second⟩ : ∃ texts, HostType.writtenAll info.parentTypes = .ok texts := by
    refine HostType.exists_writtenAll fun type listed => ?_
    unfold parentTypes at listed
    split at listed
    · obtain rfl := List.mem_singleton.mp listed
      exact (HostType.writable_of_args_eq_nil rfl (by decide)).exists_written
    · exact (parents type listed).exists_written
  exact ⟨_, bind_eq_ok.mpr ⟨brackets, first, bind_eq_ok.mpr ⟨texts, second, rfl⟩⟩⟩

/-! ## Whole trees -/

theorem Sheet.made_rules : Rules fun _ sheet => ∃ lines, sheet = .ok lines where
  flat _ := ⟨_, rfl⟩
  append := by
    rintro _ _ _ ⟨front, rfl⟩ ⟨back, rfl⟩
    exact ⟨front ++ back, rfl⟩
  deeper := by
    rintro _ _ ⟨inner, rfl⟩
    exact ⟨_, rfl⟩
  under := by
    rintro _ _ ⟨inner, rfl⟩ name
    exact ⟨_, rfl⟩
  enclosed := by
    rintro _ _ _ ⟨inner, rfl⟩
    exact ⟨_, rfl⟩

/-- The charter that asks the same of every type. -/
abbrev Charter.uniform (plain : HostType → Prop) : Charter := .ofTypes plain plain

namespace Container

variable {c : Container} {plain : HostType → Prop}

theorem Keeps.method {m : Method} (keeps : c.Keeps (.uniform plain))
    (member : .method m ∈ c.members) :
    (∀ p ∈ m.typeParams, ∀ bound ∈ p.bound, plain bound) ∧
      (∀ p ∈ m.params, plain p.type) ∧ plain m.result := by
  obtain ⟨typeParams, params, result⟩ := keeps.members (.method m) member
  exact ⟨typeParams, fun p listed => (params p listed).elim id And.right, result⟩

theorem Keeps.brings_made (keeps : c.Keeps (.uniform HostType.Writable))
    (outputPackage : String) :
    c.Brings outputPackage fun _ sheet => ∃ lines, sheet = .ok lines where
  member s member loose _ _ _ := by
    cases s with
    | comment text => exact ⟨_, rfl⟩
    | field name type =>
      have writable : type.Writable := keeps.members (.field name type) member
      obtain ⟨text, made⟩ := writable.exists_written
      exact ⟨_, bind_eq_ok.mpr ⟨_, map_eq_ok.mpr ⟨text, made, rfl⟩, rfl⟩⟩
    | method m =>
      obtain ⟨typeParams, params, result⟩ := keeps.method member
      obtain ⟨text?, made⟩ := Method.exists_line typeParams params result
      exact ⟨_, bind_eq_ok.mpr ⟨text?, made, rfl⟩⟩
    | container d => contradiction
  header info head _ sheets each := by
    obtain ⟨header, made⟩ : ∃ header, info.line = .ok header := by
      have typeParams := keeps.typeParams
      have parents := keeps.parents
      rw [head] at typeParams parents
      exact ClassHead.exists_header typeParams parents
    obtain ⟨lines, whole⟩ := each header made
    exact ⟨lines, bind_eq_ok.mpr ⟨header, made, whole⟩⟩

theorem Obeys.fault_printed (obeys : c.Obeys (.uniform HostType.Writable))
    (outputPackage : String) :
    (c.printed outputPackage).fault = none :=
  (Symbol.fault_printed (.container c) outputPackage).mpr <|
    Sheet.made_rules.container outputPackage c [] fun d inside =>
      (obeys d inside).brings_made outputPackage

end Container

/-! ## The types of a tree -/

def TypeParam.types (params : List TypeParam) : List HostType := params.filterMap (·.bound)

def Method.types (m : Method) : List HostType :=
  TypeParam.types m.typeParams ++ m.params.map (·.type) ++ [m.result]

def Symbol.types : Symbol → List HostType
  | .field _ type => [type]
  | .method m => m.types
  | .comment _ | .container _ => []

/-- The types in the head and in the members of a container. -/
def Container.types (c : Container) : List HostType :=
  c.head.parents ++ TypeParam.types c.head.typeParams ++ c.members.flatMap Symbol.types

theorem TypeParam.mem_types {params : List TypeParam} {type : HostType} :
    type ∈ types params ↔ ∃ p ∈ params, type ∈ p.bound := List.mem_filterMap

theorem Container.Keeps.types {c : Container} {plain : HostType → Prop}
    (keeps : c.Keeps (.uniform plain)) : ∀ type ∈ c.types, plain type := by
  intro type member
  simp only [Container.types, List.mem_append, TypeParam.mem_types, List.mem_flatMap] at member
  rcases member with (parent | ⟨p, listed, bound⟩) | ⟨s, listed, inner⟩
  · exact keeps.parents type parent
  · exact keeps.typeParams p listed type bound
  · cases s with
    | field name type' =>
      obtain rfl := List.mem_singleton.mp inner
      exact keeps.members (.field name _) listed
    | method m =>
      obtain ⟨typeParams, params, result⟩ := keeps.method listed
      simp only [Symbol.types, Method.types, List.mem_append, TypeParam.mem_types, List.mem_map,
        List.mem_singleton] at inner
      rcases inner with (⟨p, there, bound⟩ | ⟨p, there, rfl⟩) | rfl
      · exact typeParams p there type bound
      · exact params p there
      · exact result
    | comment text | container d => contradiction

/-- If no reference asks for the reserved name `*` alone, an import and the printing of its tree
come to their end, every type in the tree can be written, and no name in it is empty. -/
theorem rendering_importTree (declarations : List Node)
    (unstarred : ∀ node ∈ declarations, ∀ part ∈ node.parts, part.Unstarred) :
    (importTree declarations).fault = none ∧
    (∀ outputPackage, ((importTree declarations).container.printed outputPackage).fault = none) ∧
    ∀ c : Container, c.Inside (importTree declarations).container → ∀ type ∈ c.types,
      (∃ text, type.written = .ok text) ∧ ∀ q ∈ type.names, q.parts ≠ [] := by
  have obeys : (importTree declarations).container.Obeys (.uniform HostType.Writable) :=
    fun c inside => writableRules.keeps_importTree unstarred inside
  refine ⟨fault_importTree declarations, obeys.fault_printed, fun c inside type member => ?_⟩
  have named := namedRules.keeps_importTree (fun _ _ _ _ => trivial) inside
  exact ⟨((obeys c inside).types type member).exists_written, named.types type member⟩

/-- Repeated types where the host language has none, a name without a qualifier, and nodes that
are no types. -/
theorem rendering_importTree_odd :
    let rest : Node := .repeatedType (.repeatedType (.core "*"))
    let loose : Node := .typeReference (.qualified ⟨[], .plain "A"⟩) [rest, .identifier "x"]
    let declarations : List Node := [.varDecl "v" (some rest), .identifier "*",
      .interfaceDecl (.plain "I") [⟨.plain "T", some rest⟩] [loose, .functionType ⟨[], [], none⟩]
        [.callMember ⟨[], [⟨"*", true, some rest⟩], some loose⟩]]
    (∀ node ∈ declarations, ∀ part ∈ node.parts, part.Unstarred) ∧
      ((importTree declarations).container.printed "a.b").fault = none ∧
      ∃ c : Container, c.Inside (importTree declarations).container ∧
        HostType.repeated (.repeated .any) ∈ c.types ∧
        ∀ type ∈ c.types, ∃ text, type.written = .ok text := by
  intro rest loose declarations
  have unstarred : ∀ node ∈ declarations, ∀ part ∈ node.parts, part.Unstarred := by decide
  obtain ⟨_, printed, types⟩ := rendering_importTree declarations unstarred
  have repeated :
      HostType.repeated (.repeated .any) ∈ (importTree declarations).container.types := by
    decide +kernel
  exact ⟨unstarred, printed "a.b", _, .self _, repeated, fun type member =>
    (types _ (.self _) type member).1⟩

end Facade
