import Facade.Proofs.Parts

/-! Where repeated types go. They belong to the parameters of methods, and a function type with a
repeated parameter is not spelled out. So a repeated type is found in a tree only as the whole type
of a parameter, if the declarations have it only there and nobody asks for it by its name. -/
namespace Facade
open Ambient (Node TypeBase)

/-- The repeated type occurs in a type, at any depth. -/
def HostType.MentionsRepeated (type : HostType) : Prop := QualifiedName.repeated ∈ type.names

/-- A base of a reference that is not the reserved name `*` alone. Core names are never references
to what they spell. -/
def Ambient.TypeBase.Unstarred : TypeBase → Prop
  | .simple name => name ≠ .plain "*"
  | .qualified q => q.qualifier = [] → q.name.text ≠ "*"

instance : DecidablePred TypeBase.Unstarred
  | .simple name => inferInstanceAs (Decidable (name ≠ .plain "*"))
  | .qualified q => inferInstanceAs (Decidable (q.qualifier = [] → q.name.text ≠ "*"))

/-- A node that is not itself a reference to the reserved name `*`. -/
def Ambient.Node.Unstarred : Node → Prop
  | .typeReference base _ => base.Unstarred
  | _ => True

instance : DecidablePred Node.Unstarred := fun node => by
  cases node with
  | typeReference base args => exact inferInstanceAs (Decidable base.Unstarred)
  | _ => exact .isTrue trivial

theorem declaredName_ne_repeated {base : TypeBase} (declared : base.core? = none)
    (unstarred : base.Unstarred) : declaredName base ≠ .repeated := by
  cases base with
  | simple name =>
    cases name with
    | core text => contradiction
    | plain text =>
      dsimp only [declaredName, Ambient.TypeName.text]
      split
      · decide
      · decide
      · intro same
        have star : text = "*" := (List.cons.inj (QualifiedName.mk.inj same)).1
        exact unstarred (congrArg _ star)
  | qualified q =>
    obtain ⟨qualifier, name⟩ := q
    intro same
    cases qualifier with
    | nil => exact unstarred rfl (List.cons.inj (QualifiedName.mk.inj same)).1
    | cons first rest => simp [declaredName, QualifiedName.repeated] at same

theorem coreType_ne_repeated (name : String) (position : Position) :
    (coreType name position).name ≠ .repeated := by
  unfold coreType
  split
  case h_1 => cases position <;> decide
  all_goals decide

theorem functionOf_ne_repeated (arity : Nat) : QualifiedName.functionOf arity ≠ .repeated := by
  intro same
  have length := congrArg (·.parts.length) same
  simp [QualifiedName.functionOf, QualifiedName.dot, QualifiedName.scalaJS,
    QualifiedName.repeated] at length

theorem mentionsRepeated_mk {name : QualifiedName} {args : List HostType} :
    (HostType.mk name args).MentionsRepeated ↔
      name = .repeated ∨ ∃ arg ∈ args, arg.MentionsRepeated := by
  simp only [HostType.MentionsRepeated, HostType.names, List.mem_cons, mem_namesOf, eq_comm]

/-- What a translated type is, in a parameter and elsewhere, if repeated types stand only in
parameters. -/
theorem repeatedRules :
    TypeRules (fun node => node.isRepeated = false ∧ node.Unstarred) (¬ ·.MentionsRepeated)
      (fun type => ∃ element, type = .repeated element ∧ ¬ element.MentionsRepeated) where
  core name position mentions := by
    rw [HostType.MentionsRepeated, names_coreType, List.mem_singleton] at mentions
    exact coreType_ne_repeated name position mentions.symm
  function := by
    unfold HostType.MentionsRepeated
    decide
  functionOf := by
    intro params result plain plain' mentions
    rcases mentionsRepeated_mk.mp mentions with same | ⟨type, member, inner⟩
    · exact functionOf_ne_repeated _ same
    · rcases List.mem_append.mp member with param | last
      · exact plain type param inner
      · exact plain' (List.mem_singleton.mp last ▸ inner)
  declared := by
    intro base args types fit declared plain mentions
    rcases mentionsRepeated_mk.mp mentions with same | ⟨type, member, inner⟩
    · exact declaredName_ne_repeated declared fit.2 same
    · exact plain type member inner
  repeated fit := Bool.noConfusion fit.1
  param plain := ⟨_, rfl, plain⟩

/-- If repeated types are declared for parameters only, a repeated type is found in the tree only as
the whole type of a parameter of a method that is no accessor, and its element is not repeated. -/
theorem repeated_importTree (declarations : List Node)
    (placed : ∀ node ∈ declarations, ∀ part ∈ node.parts,
      part.isRepeated = false ∧ part.Unstarred)
    {c : Container} (inside : c.Inside (importTree declarations).container) :
    (∀ type ∈ c.head.parents, ¬ type.MentionsRepeated) ∧
    (∀ p ∈ c.head.typeParams, ∀ bound ∈ p.bound, ¬ bound.MentionsRepeated) ∧
    (∀ name type, .field name type ∈ c.members → ¬ type.MentionsRepeated) ∧
    ∀ m, .method m ∈ c.members →
      (∀ p ∈ m.typeParams, ∀ bound ∈ p.bound, ¬ bound.MentionsRepeated) ∧
      ¬ m.result.MentionsRepeated ∧
      ∀ p ∈ m.params, p.type.MentionsRepeated →
        m.bracket = false ∧ ∃ element, p.type = .repeated element ∧ ¬ element.MentionsRepeated := by
  have keeps := repeatedRules.keeps_importTree placed inside
  refine ⟨keeps.parents, keeps.typeParams, fun name type member => ?_, fun m member => ?_⟩
  · exact keeps.members (.field name type) member
  · obtain ⟨bounds, params, result⟩ := keeps.members (.method m) member
    exact ⟨bounds, result, fun p listed mentions => (params p listed).resolve_left (· mentions)⟩

/-- Two repeated parameters, one of them deep inside the type of the other. -/
theorem repeated_importTree_nested :
    let number : Node := .core "number"
    let rest (type : Node) : Ambient.Param := ⟨"rest", false, some (.repeatedType type)⟩
    let callback : Node := .functionType ⟨[], [rest number], some number⟩
    let called : Ambient.Signature := ⟨[⟨.plain "T", some callback⟩],
      [⟨"p", false, some callback⟩, rest (.named "Array" [callback])], some callback⟩
    let declarations : List Node := [.moduleDecl "n" [.functionDecl "f" called]]
    let array : HostType := ⟨.array, [.function]⟩
    let f : Method := ⟨"f", [⟨"T", some .function⟩],
      [⟨"p", .function, false⟩, ⟨"rest", .repeated array, false⟩], .function, false⟩
    (∀ node ∈ declarations, ∀ part ∈ node.parts, part.isRepeated = false ∧ part.Unstarred) ∧
      ∃ n : Container, n.Inside (importTree declarations).container ∧ .method f ∈ n.members ∧
        (HostType.repeated array).MentionsRepeated ∧ ¬ array.MentionsRepeated := by
  intro number rest callback called declarations array f
  have there : (importTree declarations).container.find? ⟨.package, "n"⟩ = some
      ((Container.fresh ⟨.package, "n"⟩).addMethod f) := by rfl
  obtain ⟨member, _⟩ := (sound_importTree declarations).coherent.find?_eq_some.mp there
  have inside := Container.Inside.member member (.self _)
  have placed : ∀ node ∈ declarations, ∀ part ∈ node.parts,
      part.isRepeated = false ∧ part.Unstarred := by decide
  obtain ⟨_, _, _, methods⟩ := repeated_importTree declarations placed inside
  have mentions : (HostType.repeated array).MentionsRepeated := .head _
  obtain ⟨_, element, same, plain⟩ := (methods f (.head _)).2.2 ⟨"rest", .repeated array, false⟩
    (.tail _ (.head _)) mentions
  obtain rfl : array = element := (List.cons.inj (HostType.mk.inj same).2).1
  exact ⟨placed, _, inside, .head _, mentions, plain⟩

end Facade
