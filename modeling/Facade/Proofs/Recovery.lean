import Facade.Proofs.Marks

/-! Types that are read back from their translations. Names from the source, the few names that are
translated to others, functions and repeated types meet in one space of qualified names, and none of
them takes the place of another there. What is lost is what a function type says beside the types of
its parameters. -/
namespace Facade
open Ambient (Node Signature)

namespace Ambient

/-- The core names that stay apart in translation. -/
def primitives : List String := ["number", "boolean", "string", "void", "dynamic", "any"]

/-- A type that its translation still says. -/
inductive Node.Faithful : Node → Prop where
  | core {name : String} : name ∈ primitives → Faithful (.core name)
  | named {name : String} {args : List Node} :
      name ≠ "*" → (∀ type ∈ args, Faithful type) → Faithful (.named name args)
  | qualified {qualifier : List String} {name : String} {args : List Node} :
      qualifier ≠ [] → qualifier.head? ≠ some "_root_" → (∀ type ∈ args, Faithful type) →
      Faithful (.typeReference (.qualified ⟨qualifier, .plain name⟩) args)
  | repeated {element : Node} : Faithful element → Faithful (.repeatedType element)
  | function {params : List Param} {result : Node} :
      (∀ p ∈ params, ∀ type ∈ p.type, Faithful type) → (∀ p ∈ params, p.isRepeated = false) →
      Faithful result → Faithful (.functionType ⟨[], params, some result⟩)

mutual

/-- A type in which the parameters of function types have a type and neither a name nor a flag. -/
def Node.anonymous : Node → Node
  | .typeReference base args => .typeReference base (anonymousTypes args)
  | .repeatedType element => .repeatedType element.anonymous
  | .functionType signature => .functionType signature.anonymous
  | node => node

def Signature.anonymous : Signature → Signature
  | ⟨typeParams, params, none⟩ => ⟨typeParams, anonymousParams params, none⟩
  | ⟨typeParams, params, some result⟩ =>
      ⟨typeParams, anonymousParams params, some result.anonymous⟩

def anonymousTypes : List Node → List Node
  | [] => []
  | type :: types => type.anonymous :: anonymousTypes types

def anonymousParams : List Param → List Param
  | [] => []
  | ⟨_, _, none⟩ :: params => ⟨"", false, some (.core "any")⟩ :: anonymousParams params
  | ⟨_, _, some type⟩ :: params => ⟨"", false, some type.anonymous⟩ :: anonymousParams params

end

/-- A parameter that is left with its type. -/
def Param.only (type : Node) : Param := ⟨"", false, some type⟩

theorem anonymousParams_eq_map (params : List Param) :
    anonymousParams params = params.map fun p => .only p.typeOrAny.anonymous := by
  induction params with
  | nil => rfl
  | cons p params ih =>
    obtain ⟨name, optional, type⟩ := p
    cases type with
    | none => exact congrArg (Param.only (.core "any") :: ·) ih
    | some type => exact congrArg (Param.only type.anonymous :: ·) ih

theorem Node.isRepeated_anonymous (node : Node) : node.anonymous.isRepeated = node.isRepeated := by
  cases node <;> rfl

end Ambient

theorem paramTypes_eq_map (params : List Ambient.Param) :
    paramTypes params = params.map (·.typeOrAny.hostType .inner) := by
  induction params with
  | nil => rfl
  | cons p params ih =>
    obtain ⟨name, optional, type⟩ := p
    cases type with
    | none => exact congrArg (HostType.any :: ·) ih
    | some type => exact congrArg (type.hostType .inner :: ·) ih

/-! ## Reading back -/

/-- What a direct member of the library's package is the translation of. -/
def libraryType (name : String) (args : List Node) : Node :=
  match name with
  | "Any" => .core "any"
  | "Dynamic" => .core "dynamic"
  | "Array" | "Function" => .named name args
  | _ => .functionType ⟨[], args.dropLast.map .only, args.getLast?⟩

/-- What a name is the translation of, with these arguments. -/
def QualifiedName.ambient (q : QualifiedName) (args : List Node) : Node :=
  match q.parts with
  | ["*"] => .repeatedType (args.headD (.core "any"))
  | [name] => .named name args
  | ["_root_", "scala", "Double"] => .core "number"
  | ["_root_", "scala", "Boolean"] => .core "boolean"
  | ["_root_", "scala", "Unit"] => .core "void"
  | ["_root_", "java", "lang", "String"] => .core "string"
  | ["_root_", "scala", "scalajs", "js", name] => libraryType name args
  | parts => .typeReference (.qualified ⟨parts.dropLast, .plain (parts.getLast?.getD "")⟩) args

mutual

def HostType.ambient : HostType → Node
  | ⟨name, args⟩ => name.ambient (ambientTypes args)

def ambientTypes : List HostType → List Node
  | [] => []
  | type :: types => type.ambient :: ambientTypes types

end

theorem ambientTypes_eq_map (types : List HostType) :
    ambientTypes types = types.map (·.ambient) := by
  induction types with
  | nil => rfl
  | cons type types ih => rw [ambientTypes, ih, List.map_cons]

namespace QualifiedName

/-- Two plain names belong to types of the library, all others are names of their own. -/
theorem ambient_declaredName_plain {name : String} (other : name ≠ "*") (args : List Node) :
    (declaredName (.simple (.plain name))).ambient args = .named name args := by
  dsimp only [declaredName, Ambient.TypeName.text]
  split
  · rfl
  · rfl
  · simp [ambient]

/-- A path that does not start at the root of the host language belongs to the source. -/
theorem ambient_declaredName_qualified {qualifier : List String} (nested : qualifier ≠ [])
    (other : qualifier.head? ≠ some "_root_") (name : String) (args : List Node) :
    (declaredName (.qualified ⟨qualifier, .plain name⟩)).ambient args =
      .typeReference (.qualified ⟨qualifier, .plain name⟩) args := by
  obtain ⟨first, rest, rfl⟩ := List.exists_cons_of_ne_nil nested
  have outside : first ≠ "_root_" := fun same => other (congrArg some same)
  obtain ⟨second, more, path⟩ : ∃ second more, rest ++ [name] = second :: more := by
    cases rest <;> exact ⟨_, _, rfl⟩
  have parts : (first :: rest) ++ [name] = first :: second :: more := congrArg (first :: ·) path
  have split : (first :: second :: more).dropLast = first :: rest ∧
      (first :: second :: more).getLast? = some name := by
    rw [← parts]
    exact ⟨List.dropLast_concat, List.getLast?_concat⟩
  simp [ambient, declaredName, Ambient.TypeName.text, path, outside, split]

/-- Functions are told apart from the other types of the library by the number in their name. -/
theorem ambient_functionOf (arity : Nat) (args : List Node) :
    (functionOf arity).ambient args =
      .functionType ⟨[], args.dropLast.map .only, args.getLast?⟩ := by
  have long : "Function" ++ toString arity ≠ "Function" := by simp
  have apart (name : String) (short : name.length < 8) : "Function" ++ toString arity ≠ name := by
    rintro rfl
    rw [String.length_append, show "Function".length = 8 from rfl] at short
    omega
  have library : libraryType ("Function" ++ toString arity) args =
      .functionType ⟨[], args.dropLast.map .only, args.getLast?⟩ := by
    rw [libraryType.eq_def]
    split
    · next same => exact absurd same (apart _ (by decide))
    · next same => exact absurd same (apart _ (by decide))
    · next same => exact absurd same (apart _ (by decide))
    · next same => exact absurd same long
    · rfl
  exact library

end QualifiedName

theorem ambientTypes_hostTypes {args : List Node}
    (each : ∀ type ∈ args, (type.hostType .inner).ambient = type.anonymous) :
    ambientTypes (hostTypes args) = Ambient.anonymousTypes args := by
  induction args with
  | nil => rfl
  | cons type args ih =>
    rw [hostTypes, ambientTypes, Ambient.anonymousTypes, each type (.head _),
      ih fun other member => each other (.tail _ member)]

theorem ambient_functionType {params : List HostType} {result : HostType} :
    (HostType.functionOf params result).ambient =
      .functionType ⟨[], params.map fun type => .only type.ambient, some result.ambient⟩ := by
  rw [HostType.functionOf, HostType.ambient, QualifiedName.ambient_functionOf, ambientTypes_eq_map,
    List.map_append, List.map_singleton, List.dropLast_concat, List.getLast?_concat, List.map_map]
  rfl

/-- The translation of a function type whose parameters are not repeated. -/
theorem hostType_function {params : List Ambient.Param} {result : Node}
    (plain : ∀ p ∈ params, p.isRepeated = false) :
    (Node.functionType ⟨[], params, some result⟩).hostType .inner =
      .functionOf (params.map (·.typeOrAny.hostType .inner)) (result.hostType .inner) := by
  have none : (params.any (·.isRepeated)) = false := by
    rw [List.any_eq_false]
    intro p member
    simp [plain p member]
  rw [Node.hostType, Signature.functionType, none, paramTypes_eq_map]
  rfl

namespace Ambient

theorem Param.typeOrAny_cases {p : Param} {P : Node → Prop} (any : P (.core "any"))
    (declared : ∀ type ∈ p.type, P type) : P p.typeOrAny := by
  obtain ⟨name, optional, type⟩ := p
  cases type with
  | none => exact any
  | some type => exact declared type rfl

/-- A faithful type can be read back from its translation. -/
theorem Node.Faithful.ambient_hostType {type : Node} (faithful : type.Faithful) :
    (type.hostType .inner).ambient = type.anonymous := by
  induction faithful with
  | @core name listed =>
    simp only [primitives, List.mem_cons, List.not_mem_nil, or_false] at listed
    rcases listed with rfl | rfl | rfl | rfl | rfl | rfl <;> rfl
  | @named name args other _ ih =>
    have own := QualifiedName.ambient_declaredName_plain other (anonymousTypes args)
    rw [← ambientTypes_hostTypes ih] at own
    rw [Node.named, Node.anonymous, ← ambientTypes_hostTypes ih]
    exact own
  | @qualified qualifier name args nested other _ ih =>
    have own := QualifiedName.ambient_declaredName_qualified nested other name
      (anonymousTypes args)
    rw [← ambientTypes_hostTypes ih] at own
    rw [Node.anonymous, ← ambientTypes_hostTypes ih]
    exact own
  | repeated _ ih => exact congrArg Node.repeatedType ih
  | @function params result _ plain _ ih ih' =>
    rw [hostType_function plain, ambient_functionType, ih', Node.anonymous, Signature.anonymous,
      anonymousParams_eq_map, List.map_map]
    congr 2
    refine List.map_congr_left fun p member => congrArg Param.only ?_
    exact p.typeOrAny_cases (P := fun type => (type.hostType .inner).ambient = type.anonymous) rfl
      (ih p member)

theorem hostTypes_anonymousTypes {args : List Node}
    (each : ∀ type ∈ args, type.anonymous.hostType .inner = type.hostType .inner) :
    hostTypes (anonymousTypes args) = hostTypes args := by
  induction args with
  | nil => rfl
  | cons type args ih =>
    rw [anonymousTypes, hostTypes, hostTypes, each type (.head _),
      ih fun other member => each other (.tail _ member)]

theorem Param.isRepeated_only_anonymous (p : Param) :
    (Param.only p.typeOrAny.anonymous).isRepeated = p.isRepeated :=
  p.typeOrAny.isRepeated_anonymous

/-- What is lost has no part in the translation. -/
theorem Node.Faithful.hostType_anonymous {type : Node} (faithful : type.Faithful) :
    type.anonymous.hostType .inner = type.hostType .inner := by
  induction faithful with
  | core _ => rfl
  | @named name args _ _ ih =>
    exact congrArg (HostType.mk (declaredName (.simple (.plain name))))
      (hostTypes_anonymousTypes ih)
  | @qualified qualifier name args nested other _ ih =>
    exact congrArg (HostType.mk (declaredName (.qualified ⟨qualifier, .plain name⟩)))
      (hostTypes_anonymousTypes ih)
  | repeated _ ih => exact congrArg HostType.repeated ih
  | @function params result _ plain _ ih ih' =>
    have plain' : ∀ p ∈ anonymousParams params, p.isRepeated = false := by
      rw [anonymousParams_eq_map, List.forall_mem_map]
      exact fun p member => p.isRepeated_only_anonymous.trans (plain p member)
    rw [Node.anonymous, Signature.anonymous, hostType_function plain', hostType_function plain, ih',
      anonymousParams_eq_map, List.map_map]
    congr 1
    refine List.map_congr_left fun p member => ?_
    exact p.typeOrAny_cases
      (P := fun type => type.anonymous.hostType .inner = type.hostType .inner) rfl (ih p member)

/-- Two types are translated alike exactly when they differ in what is lost only. -/
theorem Node.Faithful.hostType_inj {a b : Node} (faithful : a.Faithful) (faithful' : b.Faithful) :
    a.hostType .inner = b.hostType .inner ↔ a.anonymous = b.anonymous := by
  constructor
  · intro same
    rw [← faithful.ambient_hostType, ← faithful'.ambient_hostType, same]
  · intro same
    rw [← faithful.hostType_anonymous, ← faithful'.hostType_anonymous, same]

/-! ## Signatures -/

/-- A signature whose parameters, if they have a type, have one that its translation says. -/
structure Signature.Faithful (s : Signature) : Prop where
  plain : s.typeParams = []
  params : ∀ p ∈ s.params, ∀ type ∈ p.type, type.Faithful

/-- The types and flags of the parameters. -/
def Signature.shape (s : Signature) : List (Node × Bool) :=
  s.params.map fun p => (p.typeOrAny.anonymous, p.optional)

theorem Node.Faithful.isConstant {type : Node} (faithful : type.Faithful) :
    type.isConstant = false := by
  cases faithful <;> rfl

namespace Signature.Faithful

variable {s t : Signature}

theorem typeOrAny (faithful : s.Faithful) {p : Param} (member : p ∈ s.params) :
    p.typeOrAny.Faithful :=
  p.typeOrAny_cases (.core (by decide)) (faithful.params p member)

/-- No overload for constant arguments is left out among such signatures. -/
theorem entry (faithful : s.Faithful) (name : String) : s.entry name = .method (s.method name) := by
  have none : (s.params.any (·.isConstant)) = false := by
    rw [List.any_eq_false]
    intro p member
    simp [Param.isConstant, (faithful.typeOrAny member).isConstant]
  rw [Signature.entry, none]
  rfl

end Signature.Faithful

/-- Two views that tell the same elements apart tell the same lists apart. -/
theorem map_eq_map_iff_of_mem {α β γ : Type} {f : α → β} {g : α → γ} {as bs : List α}
    (each : ∀ a ∈ as, ∀ b ∈ bs, f a = f b ↔ g a = g b) :
    as.map f = bs.map f ↔ as.map g = bs.map g := by
  induction as generalizing bs with
  | nil => cases bs <;> simp
  | cons a as ih =>
    cases bs with
    | nil => simp
    | cons b bs =>
      simp only [List.map_cons, List.cons.injEq]
      exact and_congr (each a (.head _) b (.head _))
        (ih fun a' member b' member' => each a' (.tail _ member) b' (.tail _ member'))

/-- Two signatures make the same overload exactly when their parameters have the same types and
flags. -/
theorem Signature.Faithful.overload_inj {s t : Signature} (faithful : s.Faithful)
    (faithful' : t.Faithful) (name : String) :
    (s.method name).overload = (t.method name).overload ↔ s.shape = t.shape := by
  have params : (s.params.map fun p => (p.typeOrAny.hostType .inner, p.optional)) =
      (t.params.map fun p => (p.typeOrAny.hostType .inner, p.optional)) ↔ s.shape = t.shape := by
    refine map_eq_map_iff_of_mem fun p member q member' => ?_
    have types := (faithful.typeOrAny member).hostType_inj (faithful'.typeOrAny member')
    rw [Prod.mk.injEq, Prod.mk.injEq, types]
  rw [← params]
  simp [Method.overload, Signature.method, faithful.plain, faithful'.plain, List.map_map,
    Function.comp_def, Param.ofAmbient]

end Ambient

namespace Container

/-- An overload is there from the moment that a method with it is entered. -/
theorem hasOverload_enter_method (c : Container) (m : Method) (o : Method.Overload) :
    (c.enter (.method m)).container.hasOverload o = (c.hasOverload o || o == m.overload) := by
  rw [enter_method]
  cases known : c.hasOverload m.overload with
  | false => exact hasOverload_addMethod c m o
  | true =>
    by_cases same : o = m.overload
    · rw [same, if_pos rfl, known, Bool.true_or]
    · rw [if_pos rfl, beq_eq_false_iff_ne.mpr same, Bool.or_false]

theorem title_enter_method (c : Container) (m : Method) :
    (c.enter (.method m)).container.title = c.title := by
  rw [enter_method]
  cases c.hasOverload m.overload <;> rfl

/-- Of two signatures that are entered one after the other, the second collapses into the first
exactly when their parameters have the same types and flags. -/
theorem notes_second {s t : Signature} (faithful : s.Faithful) (faithful' : t.Faithful)
    {c : Container} {name : String} (free : c.hasOverload (t.method name).overload = false) :
    ((c.enter (s.entry name)).container.enter (t.entry name)).notes = [.collapsed name c.title] ↔
      s.shape = t.shape := by
  rw [← faithful.overload_inj faithful' name, faithful.entry, faithful'.entry, enter_method,
    hasOverload_enter_method, free, title_enter_method, Bool.false_or]
  by_cases same : (s.method name).overload = (t.method name).overload
  · rw [same, beq_self_eq_true]
    exact iff_of_true rfl rfl
  · rw [beq_eq_false_iff_ne.mpr (Ne.symm same)]
    exact iff_of_false nofun same

end Container

/-- Translation confuses no two types that it can express: they are translated alike exactly when
they differ only in the names and flags of parameters inside function types, where a parameter
without a type takes anything. So a second signature collapses into a first one only if the
parameters of both have the same types and flags. -/
theorem told_apart {a b : Node} (faithful : a.Faithful) (faithful' : b.Faithful)
    {s t : Signature} (expressed : s.Faithful) (expressed' : t.Faithful) {c : Container}
    {name : String} (free : c.hasOverload (t.method name).overload = false) :
    (a.hostType .inner = b.hostType .inner ↔ a.anonymous = b.anonymous) ∧
      (((c.enter (s.entry name)).container.enter (t.entry name)).notes =
        [.collapsed name c.title] ↔ s.shape = t.shape) :=
  ⟨faithful.hostType_inj faithful', Container.notes_second expressed expressed' free⟩

/-- Two spellings of one function type, and beside it the bare function type. -/
theorem told_apart_listeners :
    let named : Node := .functionType ⟨[], [⟨"event", false, some (.named "Array" [.core "string"])⟩,
      ⟨"data", true, none⟩], some (.core "void")⟩
    let unnamed : Node := .functionType ⟨[], [⟨"", true, some (.named "Array" [.core "string"])⟩,
      ⟨"", false, some (.core "any")⟩], some (.core "void")⟩
    let first : Signature := ⟨[], [⟨"listener", true, some named⟩], none⟩
    let second : Signature := ⟨[], [⟨"listener", true, some (.named "Function" [])⟩], none⟩
    let c : Container := .fresh ⟨.classOrTrait, "Emitter"⟩
    named.Faithful ∧ unnamed.Faithful ∧ first.Faithful ∧ second.Faithful ∧
      c.hasOverload (second.method "on").overload = false ∧
      named.hostType .inner = unnamed.hostType .inner ∧
      ((c.enter (first.entry "on")).container.enter (second.entry "on")).notes ≠
        [.collapsed "on" c.title] := by
  intro named unnamed first second c
  have text : (Node.core "string").Faithful := .core (by decide)
  have array : (Node.named "Array" [.core "string"]).Faithful :=
    .named (by decide) (by simpa using text)
  have faithful : named.Faithful := by
    refine .function ?_ (by decide) (.core (by decide))
    simpa using array
  have faithful' : unnamed.Faithful := by
    refine .function ?_ (by decide) (.core (by decide))
    simpa using ⟨array, .core (by decide)⟩
  have expressed : first.Faithful := ⟨rfl, by simpa [first] using faithful⟩
  have expressed' : second.Faithful := by
    refine ⟨rfl, ?_⟩
    have bare : (Node.named "Function" []).Faithful := .named (by decide) nofun
    simpa [second] using bare
  have free : c.hasOverload (second.method "on").overload = false := by rfl
  obtain ⟨types, notes⟩ := told_apart faithful faithful' expressed expressed' free
  exact ⟨faithful, faithful', expressed, expressed', free, types.mpr rfl, mt notes.mp nofun⟩

end Facade
