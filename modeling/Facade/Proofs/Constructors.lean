import Facade.Proofs.Blocks
import Facade.Proofs.Parts
import Facade.Proofs.Promotion

/-! Where constructors go. They are found in the body of an object and go to its companion, which
is no trait from then on; so every constructor of a tree is in a class, and is written in its
block. -/
namespace Facade
open Ambient (Node Signature)

def Method.IsConstructor (m : Method) : Prop := m.name = constructorName

instance (m : Method) : Decidable m.IsConstructor := inferInstanceAs (Decidable (_ = _))

/-- The name of a function, as a declaration or as a member. -/
def Ambient.Node.functionName? : Node → Option String
  | .functionDecl name _ => some name
  | .functionMember name _ _ => some name
  | _ => none

/-- A node that does not give the name of constructors to a function. -/
def Ambient.Node.Unreserved (node : Node) : Prop :=
  node.functionName? ≠ some Method.constructorName

instance : DecidablePred Node.Unreserved := fun _ => inferInstanceAs (Decidable (_ ≠ _))

theorem Head.IsClass.grows {old new : Head} (concrete : old.IsClass) (grows : old.Grows new) :
    new.IsClass := by
  cases grows with
  | same => exact concrete
  | classOrTrait grows =>
    rcases grows.isTrait with same | ⟨_, now⟩
    · exact same.trans concrete
    · exact now

/-- A constructor is in a class. It has no type parameters, and it is read as a method without a
result. -/
def Charter.constructors : Charter where
  parent _ := True
  typeParam _ := True
  field _ _ _ := True
  method head m := m.IsConstructor →
    head.IsClass ∧ m.bracket = false ∧ m.typeParams = [] ∧ m.result = .unit
  field_grows _ := id
  method_grows grows allowed reserved := (allowed reserved).imp_left (·.grows grows)

namespace Charter

variable {head : Head}

theorem constructors_entry (s : Signature) {name : String} (other : name ≠ Method.constructorName) :
    constructors.Admits head (s.entry name) := by
  unfold Signature.entry
  split
  · trivial
  · exact fun reserved => absurd reserved other

theorem constructors_constructorEntry (s : Signature) (concrete : head.IsClass) :
    constructors.Admits head s.constructorEntry := by
  unfold Signature.constructorEntry Signature.entry
  split
  · trivial
  · exact fun _ => ⟨concrete, rfl, rfl, rfl⟩

theorem constructors_member (kind : Kind) {node : Node} (unreserved : node.Unreserved) :
    constructors.AdmitsMember kind node where
  entries entry member head _ := by
    cases Node.brings_of_mem member with
    | call s => exact constructors_entry s (by decide)
    | function name optional s =>
      have other : name ≠ Method.constructorName := fun same => unreserved (congrArg some same)
      exact constructors_entry s (escapeApply_ne_constructorName other)
    | accessor listed =>
      simp only [Ambient.accessors, List.mem_cons, List.not_mem_nil, or_false] at listed
      rcases listed with rfl | rfl
      · exact fun reserved => absurd reserved (show Method.applyName ≠ _ by decide)
      · exact fun reserved => absurd reserved (show Method.updateName ≠ _ by decide)
    | property | placeholder => trivial
  constructor s _ _ concrete := constructors_constructorEntry s concrete

theorem constructors_single {node : Node} {entry : Entry} (unreserved : node.Unreserved)
    (single : node.single? = some entry) : constructors.Admits head entry := by
  cases Node.stands_of_single single with
  | function name s => exact constructors_entry s fun same => unreserved (congrArg some same)
  | typed | untyped | placeholder => trivial

theorem constructors_covers : constructors.Covers (Node.Throughout Node.Unreserved) :=
  covers_throughout (fun fit single _ => constructors_single fit.self single)
    (fun kind _ fit => constructors_member kind fit.self) (fun _ _ => trivial)
    fun _ _ _ _ => trivial

end Charter

/-! ## The lines of constructors -/

namespace Source

/-- What the line of a constructor looks like. -/
def IsConstructorLine (text : String) : Prop :=
  ∃ params, text = "def this(" ++ params ++ ") = this()"

theorem not_isConstructorLine (front : String) : ¬ IsConstructorLine (front ++ " = js.native") := by
  rintro ⟨params, same⟩
  have last := congrArg (·.toList.getLast?) same
  simp [String.toList_append, List.getLast?_cons] at last

end Source

theorem Method.isConstructorLine_iff {m : Method} {text : String}
    (written : m.line? = .ok (some text)) : Source.IsConstructorLine text ↔ m.IsConstructor := by
  unfold Method.line? at written
  split at written
  · next reserved =>
    refine ⟨fun _ => eq_of_beq reserved, fun _ => ?_⟩
    split at written
    · cases written
    · obtain ⟨params, _, same⟩ := map_eq_ok.mp written
      exact ⟨params, (Option.some.inj same).symm⟩
  · next other =>
    refine ⟨fun line => ?_, fun reserved => absurd (beq_iff_eq.mpr reserved) other⟩
    obtain ⟨declared, made, same⟩ := map_eq_ok.mp written
    obtain rfl := Option.some.inj same
    unfold Method.declarationLine at made
    obtain ⟨typeParams, _, made⟩ := bind_eq_ok.mp made
    obtain ⟨params, _, made⟩ := bind_eq_ok.mp made
    obtain ⟨result, _, made⟩ := bind_eq_ok.mp made
    obtain rfl := Except.ok.inj made
    exact absurd line (Source.not_isConstructorLine _)

theorem ClassHead.exists_line {info : ClassHead} {header : String} (concrete : info.isTrait = false)
    (written : info.line = .ok header) : ∃ rest, header = "class " ++ rest := by
  unfold ClassHead.line at written
  obtain ⟨typeParams, _, written⟩ := bind_eq_ok.mp written
  obtain ⟨parents, _, written⟩ := bind_eq_ok.mp written
  obtain rfl := Except.ok.inj written
  simp only [concrete, Bool.false_eq_true, ↓reduceIte, String.append_assoc]
  exact ⟨_, rfl⟩

/-- The innermost block around a line is that of a class. -/
def InClass (outer : List Opening) : Prop :=
  ∃ info header rest, outer.head? = some ⟨.definition (.classOrTrait info), header⟩ ∧
    info.isTrait = false ∧ header = "class " ++ rest

/-- If no function has the name of constructors, a constructor of the tree is in a class, has no
type parameters, is no accessor and gives nothing back. Where the tree is written, the lines that
look like constructors are the lines of constructors, and they are in the block of a class. -/
theorem constructors_importTree (declarations : List Node)
    (unreserved : ∀ node ∈ declarations, ∀ part ∈ node.parts, part.Unreserved) :
    (∀ c : Container, c.Inside (importTree declarations).container →
      ∀ m, .method m ∈ c.members → m.IsConstructor →
        c.head.IsClass ∧ m.bracket = false ∧ m.typeParams = [] ∧ m.result = .unit) ∧
    ∀ outputPackage, ((importTree declarations).container.printed outputPackage).fault = none →
      ∃ lines, (importTree declarations).container.sheet outputPackage = .ok lines ∧
        ((importTree declarations).container.printed outputPackage).text = sheetText lines ∧
        ∀ before line after m text, lines = before ++ line :: after →
          line.content = .member (.method m) text →
            (Source.IsConstructorLine text ↔ m.IsConstructor) ∧
            (Source.IsConstructorLine text → InClass (openAfter [] before)) := by
  have held : ∀ c : Container, c.Inside (importTree declarations).container →
      ∀ m, .method m ∈ c.members → m.IsConstructor →
        c.head.IsClass ∧ m.bracket = false ∧ m.typeParams = [] ∧ m.result = .unit :=
    fun c inside m member =>
      (obeys_importTree Charter.constructors_covers unreserved c inside).members (.method m) member
  refine ⟨held, fun outputPackage whole => ?_⟩
  obtain ⟨lines, made⟩ := (Symbol.fault_printed _ _).mp whole
  refine ⟨lines, made, congrArg Printed.text (Symbol.printed_of_sheet made), ?_⟩
  rintro before line after m text rfl content
  have arranges : (importTree declarations).container.Arranges fun outer s text =>
      ∀ m, s = .method m → (Source.IsConstructorLine text ↔ m.IsConstructor) ∧
        (Source.IsConstructorLine text → InClass outer) := by
    rintro c inside _ member opening opens outer text written m rfl
    have iff := Method.isConstructorLine_iff written
    refine ⟨iff, fun line => ?_⟩
    have concrete := (held c inside m member (iff.mp line)).1
    obtain ⟨head, members, index, companion⟩ := c
    cases head with
    | package name | object name => contradiction
    | classOrTrait info =>
      obtain ⟨block, header⟩ := opening
      obtain ⟨rfl, headed⟩ := opens
      obtain ⟨rest, named⟩ := ClassHead.exists_line concrete headed
      exact ⟨info, header, rest, rfl, concrete, named⟩
  exact arranges.at made content m rfl

/-- An interface reopens the class, and its own constructor comes to nothing. -/
theorem constructors_importTree_reopened :
    let built : Node := .constructorMember
      ⟨[], [⟨"x", false, some (.core "number")⟩], some (.named "A" [])⟩
    let declarations : List Node := [.varDecl "A" (some (.objectType [built])),
      .interfaceDecl (.plain "A") [] [.named "B" []] [built]]
    let root := (importTree declarations).container
    let m : Method := ⟨Method.constructorName, [], [⟨"x", .number, false⟩], .unit, false⟩
    (∀ node ∈ declarations, ∀ part ∈ node.parts, part.Unreserved) ∧
      (root.printed "p").fault = none ∧
      (∃ a : Container, a.Inside root ∧ .method m ∈ a.members ∧ a.head.IsClass) ∧
      ∃ before line after, root.sheet "p" = .ok (before ++ line :: after) ∧
        line.content = .member (.method m) "def this(x: Double) = this()" ∧
        InClass (openAfter [] before) := by
  intro built declarations root m
  have unreserved : ∀ node ∈ declarations, ∀ part ∈ node.parts, part.Unreserved := by decide
  have whole : (root.printed "p").fault = none := by rfl
  obtain ⟨held, written⟩ := constructors_importTree declarations unreserved
  refine ⟨unreserved, whole, ?_, ?_⟩
  · have there : root.find? ⟨.classOrTrait, "A"⟩ = some
        ⟨.classOrTrait ⟨"A", false, [], [⟨⟨["B"]⟩, []⟩]⟩,
          [.method m, .comment (placeholderText built)], { overloads := [m.overload] },
          some ⟨.object, "A"⟩⟩ := by rfl
    obtain ⟨member, _⟩ := (sound_importTree declarations).coherent.find?_eq_some.mp there
    have inside := Container.Inside.member member (.self _)
    exact ⟨_, inside, .head _, (held _ inside m (.head _) rfl).1⟩
  · obtain ⟨lines, made, _, placed⟩ := written "p" whole
    obtain ⟨line, here, content⟩ : ∃ line, lines[13]? = some line ∧
        line.content = .member (.method m) "def this(x: Double) = this()" := by
      obtain rfl := Except.ok.inj ((show root.sheet "p" = .ok _ from rfl).symm.trans made)
      exact ⟨_, rfl, rfl⟩
    obtain ⟨inRange, rfl⟩ := List.getElem?_eq_some_iff.mp here
    have cut : lines = lines.take 13 ++ lines[13] :: lines.drop 14 := by
      rw [List.getElem_cons_drop, List.take_append_drop]
    exact ⟨_, _, _, made.trans (congrArg Except.ok cut), content,
      (placed _ _ _ _ _ cut content).2 ⟨"x: Double", rfl⟩⟩

end Facade
