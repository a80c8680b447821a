import Facade.Import.Entry
import Facade.Proofs.Assembly
import Facade.Proofs.ShownTerms

/-! What a placeholder says about the node it stands for: everything, if no number in the node has a
fraction, and on one line. The nodes that count as equal are then those that are shown alike, except
that truth values count as numbers. -/
namespace Facade.Ambient

/-! ## The literals in a node -/

mutual

/-- The literals that stand somewhere in a node, in the order in which they are shown. -/
def Node.literals : Node → List Literal
  | .literal l | .constantType l => [l]
  | .typeParam p => p.literals
  | .param p => p.literals
  | .signature s | .functionType s | .callMember s | .constructorMember s => s.literals
  | .functionMember _ _ s | .functionDecl _ s => s.literals
  | .typeReference _ args => literalsIn args
  | .objectType members | .moduleDecl _ members => literalsIn members
  | .tupleType elements => literalsIn elements
  | .repeatedType element => element.literals
  | .unionType left right => left.literals ++ right.literals
  | .indexMember _ index value => index.literals ++ value.literals
  | .propertyMember _ _ type | .typeDecl _ type => type.literals
  | .varDecl _ type => optionalLiterals type
  | .interfaceDecl _ typeParams parents members =>
      typeParamLiterals typeParams ++ literalsIn parents ++ literalsIn members
  | .classDecl _ typeParams parent interfaces members =>
      typeParamLiterals typeParams ++ optionalLiterals parent ++ literalsIn interfaces ++
        literalsIn members
  | _ => []

def TypeParam.literals : TypeParam → List Literal
  | ⟨_, bound⟩ => optionalLiterals bound

def Param.literals : Param → List Literal
  | ⟨_, _, type⟩ => optionalLiterals type

def Signature.literals : Signature → List Literal
  | ⟨typeParams, params, result⟩ =>
      typeParamLiterals typeParams ++ paramLiterals params ++ optionalLiterals result

def literalsIn : List Node → List Literal
  | [] => []
  | node :: nodes => node.literals ++ literalsIn nodes

def optionalLiterals : Option Node → List Literal
  | none => []
  | some node => node.literals

def typeParamLiterals : List TypeParam → List Literal
  | [] => []
  | p :: params => p.literals ++ typeParamLiterals params

def paramLiterals : List Param → List Literal
  | [] => []
  | p :: params => p.literals ++ paramLiterals params

end

/-! ## Terms of nodes -/

namespace Term

/-- A term with such values only, apart from the truth values in fields that say whether something
is optional. -/
inductive Made (ok : Literal → Prop) : Term → Prop where
  | value {literal : Literal} : ok literal → Made ok (.value literal)
  | sequence {items : List Term} : (∀ item ∈ items, Made ok item) → Made ok (.sequence items)
  | record {kind : String} {fields : List Field} : isBare kind = true →
      (∀ field ∈ fields, isBare field.name = true) →
      (∀ field ∈ fields, field.name = "optional" → ∃ b, field.value = .flag b) →
      (∀ field ∈ fields, field.name ≠ "optional" → Made ok field.value) → Made ok (.record kind fields)

theorem Made.legible {t : Term} (made : t.Made fun literal => literal.isDecimal = false) :
    t.Legible := by
  induction made with
  | @value literal exact =>
    cases word : literal.isText with
    | false => exact .word exact word
    | true =>
      cases literal with
      | text s => exact .text s
      | integer _ | decimal _ | boolean _ | null => contradiction
  | sequence _ ih => exact .sequence ih
  | @record kind fields bare names flags _ ih =>
    refine .record bare names fun field member => ?_
    by_cases optional : field.name = "optional"
    · obtain ⟨b, flag⟩ := flags field member optional
      rw [flag]
      exact .word rfl rfl
    · exact ih field member optional

end Term

/-- A field of a term with such values. -/
structure Field.Made (ok : Literal → Prop) (field : Field) : Prop where
  bare : isBare field.name = true
  flag : field.name = "optional" → ∃ b, field.value = .flag b
  value : field.name ≠ "optional" → field.value.Made ok

section Nodes

variable {ok : Literal → Prop}

theorem made_record {kind : String} {fields : List Field} (each : ∀ field ∈ fields, field.Made ok)
    (bare : isBare kind = true := by rfl) : (Term.record kind fields).Made ok :=
  .record bare (fun field member => (each field member).bare)
    (fun field member => (each field member).flag) fun field member => (each field member).value

theorem made_nil : ∀ field ∈ ([] : List Field), field.Made ok := nofun

theorem made_cons {name : String} {value : Term} {fields : List Field} (made : value.Made ok)
    (rest : ∀ field ∈ fields, field.Made ok) (bare : isBare name = true := by rfl)
    (plain : name ≠ "optional" := by decide) :
    ∀ field ∈ ⟨name, value⟩ :: fields, field.Made ok :=
  List.forall_mem_cons.mpr ⟨⟨bare, fun same => absurd same plain, fun _ => made⟩, rest⟩

theorem made_flag (b : Bool) {fields : List Field} (rest : ∀ field ∈ fields, field.Made ok) :
    ∀ field ∈ ⟨"optional", .flag b⟩ :: fields, field.Made ok := by
  have bare : isBare "optional" = true := by rfl
  exact List.forall_mem_cons.mpr ⟨⟨bare, fun _ => ⟨b, rfl⟩, fun other => absurd rfl other⟩, rest⟩

/-- Texts and absence are values like these. -/
structure Admits (ok : Literal → Prop) : Prop where
  text (s : String) : ok (.text s)
  null : ok .null

namespace Admits

theorem identifier (admits : Admits ok) (name : String) : (Term.identifier name).Made ok :=
  made_record (made_cons (.value (admits.text name)) made_nil)

theorem propertyTerm (admits : Admits ok) (name : String) : (propertyTerm name).Made ok :=
  made_record (made_cons (.value (admits.text name)) made_nil)

theorem identifiers (admits : Admits ok) (names : List String) :
    (Term.identifiers names).Made ok :=
  .sequence (List.forall_mem_map.mpr fun name _ => admits.identifier name)

theorem typeName (admits : Admits ok) (name : TypeName) : name.term.Made ok := by
  cases name with
  | plain text => exact made_record (made_cons (.value (admits.text text)) made_nil)
  | core text => exact made_record (made_cons (.value (admits.text text)) made_nil)

theorem qualifiedTypeName (admits : Admits ok) (q : QualifiedTypeName) : q.term.Made ok :=
  made_record (made_cons (admits.identifiers q.qualifier) (made_cons (admits.typeName q.name)
    made_nil))

end Admits

theorem made_literal {literal : Literal} (fine : ok literal) : literal.term.Made ok :=
  made_record (made_cons (.value fine) made_nil)

mutual

theorem Node.made (admits : Admits ok) (node : Node) (each : ∀ l ∈ node.literals, ok l) :
    node.term.Made ok := by
  cases node with
  | identifier name => exact admits.identifier name
  | propertyName name => exact admits.propertyTerm name
  | typeName name => exact admits.typeName name
  | qualifiedTypeName name => exact admits.qualifiedTypeName name
  | typeParam p => exact p.made admits each
  | param p => exact p.made admits each
  | signature s => exact s.made admits each
  | literal l => exact made_literal (each l (.head _))
  | typeReference base args =>
    have own : base.term.Made ok := by
      cases base with
      | simple name => exact admits.typeName name
      | qualified name => exact admits.qualifiedTypeName name
    exact made_record (made_cons own (made_cons (.sequence (made_terms admits args each)) made_nil))
  | objectType members =>
    exact made_record (made_cons (.sequence (made_terms admits members each)) made_nil)
  | functionType s => exact made_record (made_cons (s.made admits each) made_nil)
  | repeatedType element => exact made_record (made_cons (element.made admits each) made_nil)
  | unionType left right =>
    obtain ⟨first, second⟩ := List.forall_mem_append.mp each
    exact made_record
      (made_cons (left.made admits first) (made_cons (right.made admits second) made_nil))
  | tupleType elements =>
    exact made_record (made_cons (.sequence (made_terms admits elements each)) made_nil)
  | typeQuery path => exact made_record (made_cons (admits.identifiers path) made_nil)
  | constantType l => exact made_record (made_cons (made_literal (each l (.head _))) made_nil)
  | callMember s => exact made_record (made_cons (s.made admits each) made_nil)
  | constructorMember s => exact made_record (made_cons (s.made admits each) made_nil)
  | indexMember name index value =>
    obtain ⟨first, second⟩ := List.forall_mem_append.mp each
    exact made_record (made_cons (admits.identifier name)
      (made_cons (index.made admits first) (made_cons (value.made admits second) made_nil)))
  | propertyMember name optional type =>
    exact made_record (made_cons (admits.propertyTerm name)
      (made_flag optional (made_cons (type.made admits each) made_nil)))
  | functionMember name optional s =>
    exact made_record (made_cons (admits.propertyTerm name)
      (made_flag optional (made_cons (s.made admits each) made_nil)))
  | moduleDecl name members =>
    exact made_record (made_cons (admits.identifier name)
      (made_cons (.sequence (made_terms admits members each)) made_nil))
  | varDecl name type =>
    exact made_record (made_cons (admits.identifier name)
      (made_cons (made_termOrAbsent admits type each) made_nil))
  | typeDecl name type =>
    exact made_record (made_cons (admits.typeName name) (made_cons (type.made admits each) made_nil))
  | interfaceDecl name typeParams parents members =>
    obtain ⟨outer, inner⟩ := List.forall_mem_append.mp each
    obtain ⟨first, second⟩ := List.forall_mem_append.mp outer
    have params := made_typeParamTerms admits typeParams first
    have others := made_terms admits parents second
    exact made_record (made_cons (admits.typeName name) (made_cons (.sequence params)
      (made_cons (.sequence others) (made_cons (.sequence (made_terms admits members inner))
        made_nil))))
  | functionDecl name s =>
    exact made_record (made_cons (admits.identifier name) (made_cons (s.made admits each) made_nil))
  | enumDecl name members =>
    exact made_record (made_cons (admits.typeName name)
      (made_cons (admits.identifiers members) made_nil))
  | classDecl name typeParams parent interfaces members =>
    obtain ⟨outer, inner⟩ := List.forall_mem_append.mp each
    obtain ⟨outer, third⟩ := List.forall_mem_append.mp outer
    obtain ⟨first, second⟩ := List.forall_mem_append.mp outer
    have params := made_typeParamTerms admits typeParams first
    have above := made_termOrAbsent admits parent second
    have others := made_terms admits interfaces third
    exact made_record (made_cons (admits.typeName name) (made_cons (.sequence params)
      (made_cons above (made_cons (.sequence others)
        (made_cons (.sequence (made_terms admits members inner)) made_nil)))))
  | importDecl name path =>
    exact made_record (made_cons (admits.identifier name)
      (made_cons (.value (admits.text path)) made_nil))

theorem TypeParam.made (admits : Admits ok) (p : TypeParam) (each : ∀ l ∈ p.literals, ok l) :
    p.term.Made ok := by
  obtain ⟨name, bound⟩ := p
  exact made_record (made_cons (admits.typeName name)
    (made_cons (made_termOrAbsent admits bound each) made_nil))

theorem Param.made (admits : Admits ok) (p : Param) (each : ∀ l ∈ p.literals, ok l) :
    p.term.Made ok := by
  obtain ⟨name, optional, type⟩ := p
  exact made_record (made_cons (admits.identifier name)
    (made_flag optional (made_cons (made_termOrAbsent admits type each) made_nil)))

theorem Signature.made (admits : Admits ok) (s : Signature) (each : ∀ l ∈ s.literals, ok l) :
    s.term.Made ok := by
  obtain ⟨typeParams, params, result⟩ := s
  obtain ⟨outer, third⟩ := List.forall_mem_append.mp each
  obtain ⟨first, second⟩ := List.forall_mem_append.mp outer
  exact made_record (made_cons (.sequence (made_typeParamTerms admits typeParams first))
    (made_cons (.sequence (made_paramTerms admits params second))
      (made_cons (made_termOrAbsent admits result third) made_nil)))

theorem made_terms (admits : Admits ok) (nodes : List Node) (each : ∀ l ∈ literalsIn nodes, ok l) :
    ∀ term ∈ terms nodes, term.Made ok := by
  cases nodes with
  | nil => exact nofun
  | cons node nodes =>
    obtain ⟨first, rest⟩ := List.forall_mem_append.mp each
    exact List.forall_mem_cons.mpr ⟨node.made admits first, made_terms admits nodes rest⟩

theorem made_termOrAbsent (admits : Admits ok) (node : Option Node)
    (each : ∀ l ∈ optionalLiterals node, ok l) : (termOrAbsent node).Made ok := by
  cases node with
  | none => exact .value admits.null
  | some node => exact node.made admits each

theorem made_typeParamTerms (admits : Admits ok) (params : List TypeParam)
    (each : ∀ l ∈ typeParamLiterals params, ok l) :
    ∀ term ∈ typeParamTerms params, term.Made ok := by
  cases params with
  | nil => exact nofun
  | cons p params =>
    obtain ⟨first, rest⟩ := List.forall_mem_append.mp each
    exact List.forall_mem_cons.mpr ⟨p.made admits first, made_typeParamTerms admits params rest⟩

theorem made_paramTerms (admits : Admits ok) (params : List Param)
    (each : ∀ l ∈ paramLiterals params, ok l) : ∀ term ∈ paramTerms params, term.Made ok := by
  cases params with
  | nil => exact nofun
  | cons p params =>
    obtain ⟨first, rest⟩ := List.forall_mem_append.mp each
    exact List.forall_mem_cons.mpr ⟨p.made admits first, made_paramTerms admits params rest⟩

end

end Nodes

/-! ## Comparison -/

namespace Literal

def isBoolean : Literal → Bool
  | .boolean _ => true
  | _ => false

/-- A literal that is equal to no other one. -/
structure Strict (literal : Literal) : Prop where
  exact : literal.isDecimal = false
  other : literal.isBoolean = false

theorem same_refl {literal : Literal} (exact : literal.isDecimal = false) :
    literal.same literal = true := by
  cases literal with
  | decimal x => contradiction
  | text _ | integer _ | boolean _ | null => simp [same, asNumber]

theorem Strict.eq_of_same {a b : Literal} (strict : a.Strict) (strict' : b.Strict)
    (same : a.same b = true) : a = b := by
  obtain ⟨exact, other⟩ := strict
  obtain ⟨exact', other'⟩ := strict'
  cases a with
  | decimal _ | boolean _ => contradiction
  | text _ | integer _ | null =>
    cases b with
    | decimal _ | boolean _ => contradiction
    | text _ | integer _ | null => simp_all [Literal.same, asNumber]

end Literal

namespace Term

theorem flag_inj {a b : Bool} (alike : (flag a).same (flag b) = true) : a = b := by
  cases a <;> cases b <;> first | rfl | contradiction

theorem sameItems_refl {items : List Term} (each : ∀ item ∈ items, item.same item = true) :
    sameItems items items = true := by
  induction items with
  | nil => rfl
  | cons item items ih =>
    obtain ⟨first, rest⟩ := List.forall_mem_cons.mp each
    rw [sameItems, first, ih rest, Bool.true_and]

theorem sameFields_refl {fields : List Field}
    (each : ∀ field ∈ fields, field.value.same field.value = true) :
    sameFields fields fields = true := by
  induction fields with
  | nil => rfl
  | cons field fields ih =>
    obtain ⟨first, rest⟩ := List.forall_mem_cons.mp each
    obtain ⟨name, value⟩ := field
    rw [sameFields, first, ih rest, beq_self_eq_true, Bool.true_and, Bool.true_and]

/-- Without fractions a term is equal to itself. -/
theorem Legible.same_refl {t : Term} (legible : t.Legible) : t.same t = true := by
  induction legible with
  | text s =>
    have exact : (Literal.text s).isDecimal = false := rfl
    exact Literal.same_refl exact
  | word exact _ => exact Literal.same_refl exact
  | sequence _ ih => exact sameItems_refl ih
  | record _ _ _ ih => rw [same, sameFields_refl ih, beq_self_eq_true, Bool.true_and]

theorem eq_of_sameItems {first second : List Term}
    (each : ∀ a ∈ first, ∀ b ∈ second, a.same b = true → a = b)
    (alike : sameItems first second = true) : first = second := by
  induction first generalizing second with
  | nil =>
    cases second with
    | nil => rfl
    | cons b second => contradiction
  | cons a first ih =>
    cases second with
    | nil => contradiction
    | cons b second =>
      obtain ⟨here, there⟩ := (Bool.and_eq_true _ _).mp alike
      rw [each a (.head _) b (.head _) here,
        ih (fun x member y member' => each x (.tail _ member) y (.tail _ member')) there]

theorem eq_of_sameFields {first second : List Field}
    (each : ∀ a ∈ first, ∀ b ∈ second, a.name = b.name → a.value.same b.value = true →
      a.value = b.value)
    (alike : sameFields first second = true) : first = second := by
  induction first generalizing second with
  | nil =>
    cases second with
    | nil => rfl
    | cons b second => contradiction
  | cons a first ih =>
    obtain ⟨name, value⟩ := a
    cases second with
    | nil => contradiction
    | cons b second =>
      obtain ⟨name', value'⟩ := b
      simp only [sameFields, Bool.and_eq_true, beq_iff_eq] at alike
      obtain ⟨⟨rfl, here⟩, there⟩ := alike
      obtain rfl := each _ (.head _) _ (.head _) rfl here
      rw [ih (fun x member y member' => each x (.tail _ member) y (.tail _ member')) there]

/-- Terms of such values are equal only if they are the same. -/
theorem Made.eq_of_same {t t' : Term} (made : t.Made Literal.Strict) (made' : t'.Made Literal.Strict)
    (alike : t.same t' = true) : t = t' := by
  induction made generalizing t' with
  | value strict =>
    cases made' with
    | value strict' => exact congrArg Term.value (strict.eq_of_same strict' alike)
    | sequence _ | record _ _ _ _ => contradiction
  | sequence _ ih =>
    cases made' with
    | sequence each' =>
      exact congrArg Term.sequence
        (eq_of_sameItems (fun a member b member' => ih a member (each' b member')) alike)
    | value _ | record _ _ _ _ => contradiction
  | @record kind fields _ _ flags _ ih =>
    cases made' with
    | value _ | sequence _ => contradiction
    | @record kind' fields' _ _ flags' each' =>
      obtain ⟨kinds, inner⟩ := (Bool.and_eq_true _ _).mp alike
      obtain rfl := beq_iff_eq.mp kinds
      refine congrArg (Term.record kind) (eq_of_sameFields (fun a member b member' names here => ?_) inner)
      by_cases optional : a.name = "optional"
      · obtain ⟨v, flag⟩ := flags a member optional
        obtain ⟨w, flag'⟩ := flags' b member' (names ▸ optional)
        rw [flag, flag'] at here ⊢
        rw [flag_inj here]
      · exact ih a member optional (each' b member' (names ▸ optional)) here

end Term
/-! ## Nodes -/

namespace Node

/-- No number in the node has a fraction. -/
def Exact (node : Node) : Prop := ∀ l ∈ node.literals, l.isDecimal = false

/-- No literal in the node is a truth value. -/
def NoBooleans (node : Node) : Prop := ∀ l ∈ node.literals, l.isBoolean = false

variable {a b : Node}

theorem Exact.legible (exact : a.Exact) : a.term.Legible := by
  have admits : Admits fun literal => literal.isDecimal = false := ⟨fun _ => rfl, rfl⟩
  exact (a.made admits exact).legible

theorem Exact.strict (exact : a.Exact) (other : a.NoBooleans) : a.term.Made Literal.Strict :=
  a.made ⟨fun _ => ⟨rfl, rfl⟩, ⟨rfl, rfl⟩⟩ fun l member => ⟨exact l member, other l member⟩

theorem Exact.shown_inj (exact : a.Exact) (exact' : b.Exact) (same : a.shown = b.shown) : a = b :=
  term_injective (exact.legible.shown_inj exact'.legible same)

theorem Exact.same_iff (exact : a.Exact) (exact' : b.Exact) (other : a.NoBooleans)
    (other' : b.NoBooleans) : a.same b = true ↔ a.shown = b.shown := by
  constructor
  · intro alike
    exact congrArg Term.shown ((exact.strict other).eq_of_same (exact'.strict other') alike)
  · intro texts
    obtain rfl := exact.shown_inj exact' texts
    exact exact.legible.same_refl

/-- A truth value counts as a number, and is shown as itself. -/
example : (Node.literal (.boolean true)).same (.literal (.integer 1)) = true ∧
    (Node.literal (.boolean true)).shown ≠ (Node.literal (.integer 1)).shown := by decide

theorem Exact.printable (exact : a.Exact) : ∀ c ∈ a.shown.toList, Text.printable c = true :=
  exact.legible.printed

end Node
end Facade.Ambient

namespace Facade
open Ambient (Node)

theorem placeholderText_inj {a b : Node} (same : placeholderText a = placeholderText b) :
    a.shown = b.shown := by
  have texts := congrArg String.toList same
  rw [placeholderText, placeholderText, String.toList_append, String.toList_append] at texts
  exact String.toList_inj.mp (List.append_cancel_left texts)

/-- The characters that end a line, and the tab. -/
def lineBreaks : List Char :=
  ['\n', '\r', '\t', '\x0b', '\x0c', '\x1c', '\x1d', '\x1e', '\x85', '\u2028', '\u2029']

theorem printable_of_mem_lineBreaks {c : Char} (listed : c ∈ lineBreaks) :
    Text.printable c = false := by
  have all : (lineBreaks.all fun c => !Text.printable c) = true := by decide +kernel
  simpa using List.all_eq_true.mp all c listed

/-- A node without fractions is shown on one line of printable characters, which says which node it
is, and so does the placeholder for it. Two such nodes without truth values among their literals are
equal exactly when they are shown alike. -/
theorem placeholder_faithful {a b : Node} (exact : a.Exact) (exact' : b.Exact) :
    (a.shown = b.shown → a = b) ∧ (placeholderText a = placeholderText b → a = b) ∧
      (∀ c ∈ a.shown.toList, Text.printable c = true ∧ c ∉ lineBreaks) ∧
      (a.NoBooleans → b.NoBooleans → (a.same b = true ↔ a.shown = b.shown)) := by
  refine ⟨exact.shown_inj exact', fun same => exact.shown_inj exact' (placeholderText_inj same),
    fun c member => ?_, exact.same_iff exact'⟩
  have printable := exact.printable c member
  refine ⟨printable, fun hidden => ?_⟩
  rw [printable_of_mem_lineBreaks hidden] at printable
  contradiction

/-- A line break and its escape are told apart. -/
theorem placeholder_faithful_escape :
    let a : Node := .constantType (.text "it's \x22so\x22\n")
    let b : Node := .constantType (.text "it's \x22so\x22\\n")
    a.Exact ∧ b.Exact ∧ a.NoBooleans ∧ b.NoBooleans ∧
      placeholderText a = "??? ConstantType(literal=Literal(value='it\\'s \x22so\x22\\n'))" ∧
      placeholderText a ≠ placeholderText b ∧ a.same b = false := by
  intro a b
  have exact : a.Exact := by simp [a, Node.Exact, Node.literals, Ambient.Literal.isDecimal]
  have exact' : b.Exact := by simp [b, Node.Exact, Node.literals, Ambient.Literal.isDecimal]
  have other : a.NoBooleans := by simp [a, Node.NoBooleans, Node.literals, Ambient.Literal.isBoolean]
  have other' : b.NoBooleans := by
    simp [b, Node.NoBooleans, Node.literals, Ambient.Literal.isBoolean]
  have differ : a ≠ b := by simp [a, b]
  obtain ⟨shown, placeholder, _, same⟩ := placeholder_faithful exact exact'
  have unequal : ¬ a.same b = true := fun alike => differ (shown ((same other other').mp alike))
  exact ⟨exact, exact', other, other', by rfl, mt placeholder differ, by simpa using unequal⟩

end Facade
