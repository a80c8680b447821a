import Facade.Proofs.Specialized

/-! Types that are given up. A shape that the host language cannot express becomes the type of
anything or the bare function type, and the report does not mention it. Only a constant type of a
parameter is mentioned, since no method is made of its signature. -/
namespace Facade
open Ambient (Node Signature)

namespace Ambient

/-- The core names that have a counterpart. -/
def coreNames : List String := ["any", "number", "bool", "boolean", "string", "void", "dynamic"]

/-- A shape without a counterpart, whatever its parts are. -/
def Node.isGivenUp : Node → Bool
  | .typeReference base args =>
      match base.core? with
      | some name => !args.isEmpty || !coreNames.contains name
      | none => false
  | .functionType s => s.result.isNone || !s.typeParams.isEmpty || s.params.any (·.isRepeated)
  | .repeatedType _ => false
  | _ => true

/-- A type that is given up itself, or a part of it is. -/
def Node.FallsBack (type : Node) : Prop := ∃ part ∈ type.parts, part.isGivenUp = true

theorem Node.not_fallsBack {type : Node} :
    ¬ type.FallsBack ↔ type.Throughout (·.isGivenUp = false) := by
  simp only [FallsBack, Throughout, not_exists, not_and, Bool.not_eq_true]

namespace Signature

/-- The types of a signature that are translated. -/
def translated (s : Signature) : List Node :=
  if s.isSpecialized then []
  else s.typeParams.filterMap (·.bound) ++ s.params.filterMap (·.type) ++ s.result.toList

def translatedParams (s : Signature) : List Node :=
  if s.isSpecialized then [] else s.params.filterMap (·.type)

end Signature

def Node.translatedInMember : Node → List Node
  | .callMember s => s.translated
  | .constructorMember s => s.translatedParams
  | .indexMember _ index value => [index, value]
  | .propertyMember name _ type => if name == "prototype" then [] else [type]
  | .functionMember _ _ s => s.translated
  | _ => []

mutual

/-- The types in a declaration that are translated. -/
def Node.translated : Node → List Node
  | .moduleDecl _ members => translatedAll members
  | .varDecl _ (some (.objectType members)) => members.flatMap (·.translatedInMember)
  | .varDecl _ (some type) => [type]
  | .typeDecl _ (.objectType members) => members.flatMap (·.translatedInMember)
  | .interfaceDecl _ typeParams parents members =>
      typeParams.filterMap (·.bound) ++ parents ++ members.flatMap (·.translatedInMember)
  | .functionDecl _ s => s.translated
  | _ => []

def translatedAll : List Node → List Node
  | [] => []
  | node :: nodes => node.translated ++ translatedAll nodes

end

end Ambient

open Ambient (translatedAll callablesOf)

theorem coreType_of_unknown {name : String} (unknown : name ∉ Ambient.coreNames)
    (position : Position) : coreType name position = .any := by
  unfold coreType
  split
  case h_8 => rfl
  all_goals exact absurd (by decide) unknown

/-- What is given up becomes the type of anything or the bare function type. -/
theorem hostType_of_isGivenUp {type : Node} (given : type.isGivenUp = true) (position : Position) :
    type.hostType position = .any ∨ type.hostType position = .function := by
  cases type with
  | typeReference base args =>
    refine .inl ?_
    simp only [Node.isGivenUp] at given
    simp only [Node.hostType]
    cases core : base.core? with
    | none =>
      rw [core] at given
      contradiction
    | some name =>
      rw [core] at given
      dsimp only at given ⊢
      split
      · next bare =>
        have unknown : name ∉ Ambient.coreNames := by simpa [bare] using given
        exact coreType_of_unknown unknown position
      · rfl
  | functionType s =>
    obtain ⟨typeParams, params, result⟩ := s
    cases result with
    | none => exact .inl rfl
    | some result =>
      refine .inr ?_
      simp only [Node.hostType, Signature.functionType]
      rw [if_pos (by simpa [Node.isGivenUp] using given)]
  | repeatedType element => contradiction
  | _ => exact .inl rfl

/-! ## Nothing falls back when it is written out -/

mutual

theorem throughout_reference (type : HostType) :
    type.reference.Throughout (·.isGivenUp = false) := by
  obtain ⟨name, args⟩ := type
  intro part member
  rcases List.mem_cons.mp member with rfl | inner
  · rfl
  · exact throughout_references args part inner

theorem throughout_references (types : List HostType) :
    ∀ part ∈ Ambient.partsOf (references types), part.isGivenUp = false := by
  cases types with
  | nil => nofun
  | cons type types =>
    intro part member
    rcases List.mem_append.mp member with first | rest
    · exact throughout_reference type part first
    · exact throughout_references types part rest

end

namespace Ambient

theorem Node.not_fallsBack_spelled (type : Node) (position : Position) :
    ¬ (type.spelled position).FallsBack :=
  not_fallsBack.mpr (throughout_reference _)

theorem not_fallsBack_filterMap {α : Type} (explicit : α → α) (type? : α → Option Node)
    (spelled : ∀ a, type? (explicit a) = (type? a).map (·.spelled .inner)) {as : List α} :
    ∀ type ∈ (as.map explicit).filterMap type?, ¬ type.FallsBack := by
  intro type member
  obtain ⟨_, listed, declared⟩ := List.mem_filterMap.mp member
  obtain ⟨a, _, rfl⟩ := List.mem_map.mp listed
  rw [spelled] at declared
  obtain ⟨node, _, rfl⟩ := Option.map_eq_some_iff.mp declared
  exact node.not_fallsBack_spelled .inner

theorem not_fallsBack_bounds {params : List TypeParam} :
    ∀ type ∈ (params.map (·.explicit)).filterMap (·.bound), ¬ type.FallsBack :=
  not_fallsBack_filterMap TypeParam.explicit TypeParam.bound fun _ => rfl

theorem not_fallsBack_params {params : List Param} :
    ∀ type ∈ (params.map (·.explicit)).filterMap (·.type), ¬ type.FallsBack :=
  not_fallsBack_filterMap Param.explicit Param.type fun _ => rfl

namespace Signature

theorem not_fallsBack_explicit (s : Signature) :
    ∀ type ∈ s.explicit.translated, ¬ type.FallsBack := by
  unfold explicit
  split
  · next dropped =>
    rw [translated, if_pos dropped]
    nofun
  · intro type member
    rw [translated, if_neg (not_isSpecialized_explicit _ _ _)] at member
    rw [List.mem_append, List.mem_append] at member
    rcases member with (bound | param) | result
    · exact not_fallsBack_bounds type bound
    · exact not_fallsBack_params type param
    · obtain ⟨node, _, rfl⟩ := Option.map_eq_some_iff.mp (Option.mem_toList.mp result)
      exact node.not_fallsBack_spelled .outer

theorem not_fallsBack_explicitConstructor (s : Signature) :
    ∀ type ∈ s.explicitConstructor.translatedParams, ¬ type.FallsBack := by
  unfold explicitConstructor
  split
  · next dropped =>
    rw [translatedParams, if_pos dropped]
    nofun
  · rw [translatedParams, if_neg (not_isSpecialized_explicit _ _ _)]
    exact not_fallsBack_params

end Signature

theorem Node.not_fallsBack_explicitMember (node : Node) :
    ∀ type ∈ node.explicitMember.translatedInMember, ¬ type.FallsBack := by
  cases node with
  | callMember s => exact s.not_fallsBack_explicit
  | functionMember name optional s => exact s.not_fallsBack_explicit
  | constructorMember s => exact s.not_fallsBack_explicitConstructor
  | indexMember name index value =>
    intro type member
    simp only [explicitMember, translatedInMember, List.mem_cons, List.not_mem_nil, or_false]
      at member
    rcases member with rfl | rfl
    · exact index.not_fallsBack_spelled .inner
    · exact value.not_fallsBack_spelled .inner
  | propertyMember name optional type =>
    intro type' member
    simp only [explicitMember, translatedInMember] at member
    split at member
    · contradiction
    · obtain rfl := List.mem_singleton.mp member
      exact type.not_fallsBack_spelled .inner
  | _ => exact fun _ member => absurd member List.not_mem_nil

theorem not_fallsBack_body (members : List Node) :
    ∀ type ∈ (members.map (·.explicitMember)).flatMap (·.translatedInMember),
      ¬ type.FallsBack := by
  intro type member
  obtain ⟨_, listed, inner⟩ := List.mem_flatMap.mp member
  obtain ⟨node, _, rfl⟩ := List.mem_map.mp listed
  exact node.not_fallsBack_explicitMember type inner

theorem Node.translated_spelled (name : String) (type : Node) :
    (varDecl name (some (type.spelled .outer))).translated = [type.spelled .outer] := by
  obtain ⟨base, args, same⟩ := (type.hostType .outer).exists_reference
  rw [spelled, same]
  rfl

theorem Node.not_fallsBack_single (name : String) (type : Node) :
    ∀ t ∈ (varDecl name (some (type.spelled .outer))).translated, ¬ t.FallsBack := by
  rw [translated_spelled]
  intro t member
  exact List.mem_singleton.mp member ▸ type.not_fallsBack_spelled .outer

mutual

theorem Node.not_fallsBack_explicit (node : Node) :
    ∀ type ∈ node.explicit.translated, ¬ type.FallsBack := by
  cases node with
  | moduleDecl name members => exact not_fallsBack_explicitAll members
  | varDecl name type =>
    cases type with
    | none => exact fun _ member => absurd member List.not_mem_nil
    | some type =>
      cases type with
      | objectType members => exact not_fallsBack_body members
      | _ => exact Node.not_fallsBack_single name _
  | typeDecl name type =>
    cases type with
    | objectType members => exact not_fallsBack_body members
    | _ => exact fun _ member => absurd member List.not_mem_nil
  | interfaceDecl name typeParams parents members =>
    intro type member
    simp only [Node.explicit, Node.translated, List.mem_append, List.mem_map] at member
    rcases member with (bound | ⟨node, _, rfl⟩) | inner
    · exact not_fallsBack_bounds type bound
    · exact node.not_fallsBack_spelled .inner
    · exact not_fallsBack_body members type inner
  | functionDecl name s => exact s.not_fallsBack_explicit
  | _ => exact fun _ member => absurd member List.not_mem_nil

theorem not_fallsBack_explicitAll (nodes : List Node) :
    ∀ type ∈ translatedAll (explicitAll nodes), ¬ type.FallsBack := by
  cases nodes with
  | nil => nofun
  | cons node nodes =>
    intro type member
    rcases List.mem_append.mp member with first | rest
    · exact node.not_fallsBack_explicit type first
    · exact not_fallsBack_explicitAll nodes type rest

end

end Ambient

/-- What is given up becomes the type of anything or the bare function type, and leaves no note:
there are the same notes if every type is written out as what it becomes, so that none falls back,
and the tree is the same but for the texts of comments. Only where a constant type is declared for a
parameter there is a note. No method is made of that signature: every method is an accessor or made
of another one. -/
theorem fallback_importTree (verbose : Bool) (declarations : List Node) :
    let explicit := declarations.map (·.explicit)
    let imported := importReported verbose declarations
    let imported' := importReported verbose explicit
    (∀ type : Node, type.isGivenUp = true → ∀ position,
        type.hostType position = .any ∨ type.hostType position = .function) ∧
      (∀ type ∈ translatedAll explicit, ¬ type.FallsBack) ∧
      imported'.report.notes = imported.report.notes ∧
      imported'.outcome.container.Matches imported.outcome.container ∧
      (∀ c : Container, c.Inside imported.outcome.container → ∀ m, .method m ∈ c.members →
        m.bracket = true ∨ ∃ callable ∈ callablesOf declarations,
          callable.isSpecialized = false ∧ callable.Makes m) ∧
      ∀ callable ∈ callablesOf declarations, callable.isSpecialized = true →
        imported.report.sick = true ∧ ∃ note ∈ imported.report.notes, callable.Notes note := by
  intro explicit imported imported'
  obtain ⟨tree, notes⟩ := matches_importTree_explicit declarations
  have reported : imported.report.notes = (importTree declarations).notes :=
    notes_importReported verbose declarations
  refine ⟨fun _ => hostType_of_isGivenUp, ?_, ?_, tree.symm,
    fun c inside m member => exists_makes_importTree inside member,
    fun callable listed specialized => ?_⟩
  · have spelled := Ambient.not_fallsBack_explicitAll declarations
    rwa [Ambient.explicitAll_eq_map] at spelled
  · rw [notes_importReported, reported]
    exact notes.symm
  · obtain ⟨note, there, tells⟩ :=
      Container.notedIn_declareAll Container.sound_root rfl declarations listed specialized
    have noted : note ∈ imported.report.notes := by rwa [reported]
    have some : imported.report.notes ≠ [] := List.ne_nil_of_mem noted
    exact ⟨by simpa [Report.sick] using some, note, noted, tells⟩

/-- A specialized signature beside the general one, whose own parameter falls back, and a
constructor that is left as a placeholder. -/
theorem fallback_importTree_specialized :
    let tag : Ambient.Param := ⟨"tag", false, some (.constantType (.text "a"))⟩
    let general : Ambient.Param :=
      ⟨"tag", false, some (.unionType (.core "string") (.core "number"))⟩
    let special : Node := .functionDecl "make" ⟨[], [tag], none⟩
    let made : Node := .constructorMember ⟨[], [tag], some (.named "B" [])⟩
    let declarations : List Node := [special, .functionDecl "make" ⟨[], [general], none⟩,
      .interfaceDecl (.plain "A") [] [] [made]]
    let imported := importReported false declarations
    special ∈ callablesOf declarations ∧ special.isSpecialized = true ∧
      made ∈ callablesOf declarations ∧ made.isSpecialized = true ∧
      imported.report.sick = true ∧ (∃ note ∈ imported.report.notes, special.Notes note) ∧
      (∃ note ∈ imported.report.notes, made.Notes note) ∧
      (importReported false (declarations.map (·.explicit))).report.notes =
        imported.report.notes := by
  intro tag general special made declarations imported
  have first : special ∈ callablesOf declarations := .head _
  have last : made ∈ callablesOf declarations := .tail _ (.tail _ (.head _))
  obtain ⟨_, _, notes, _, _, noted⟩ := fallback_importTree false declarations
  obtain ⟨sick, told⟩ := noted special first rfl
  exact ⟨first, rfl, last, rfl, sick, told, (noted made last rfl).2, notes⟩

/-- Each shape falls back as the type of a variable, and the report has nothing to say about it. -/
theorem fallback_unreported :
    let void : Node := .core "void"
    let shapes : List Node := [.unionType (.core "string") (.core "number"),
      .tupleType [.core "string"], .typeQuery ["x"], .constantType (.text "a"),
      .named "Array" [.objectType []], .functionType ⟨[⟨.plain "T", none⟩], [], some void⟩,
      .functionType ⟨[], [⟨"rest", false, some (.repeatedType (.core "any"))⟩], some void⟩,
      .core "object", .typeReference (.simple (.core "string")) [void]]
    ∀ type ∈ shapes, translatedAll [.varDecl "x" (some type)] = [type] ∧ type.FallsBack ∧
      (importReported false [.varDecl "x" (some type)]).report.sick = false := by
  intro void shapes
  simp only [shapes, List.forall_mem_cons, List.not_mem_nil, false_implies, implies_true, and_true]
  refine ⟨⟨rfl, ?_, rfl⟩, ⟨rfl, ?_, rfl⟩, ⟨rfl, ?_, rfl⟩, ⟨rfl, ?_, rfl⟩, ⟨rfl, ?_, rfl⟩,
    ⟨rfl, ?_, rfl⟩, ⟨rfl, ?_, rfl⟩, ⟨rfl, ?_, rfl⟩, ⟨rfl, ?_, rfl⟩⟩
  case refine_5 => exact ⟨_, .tail _ (.head _), rfl⟩
  all_goals exact ⟨_, .head _, rfl⟩

end Facade
