import Facade.Proofs.Balance
import Facade.Proofs.SameMarks
import Mathlib.Algebra.Ring.Nat

/-! The order of declarations. Without type parameters it matters only for who comes first: in
any order the declarations leave the same marks, and so the same containers with the same
members up to order, types and results. What does not become a symbol becomes a note, so that
there are as many notes in any order, too. -/
namespace Facade
open Ambient (Node)

namespace Container

def children (c : Container) : List Container := c.members.filterMap (·.container?)

def childKeys (c : Container) : List Key := c.children.map key

def fieldNames (c : Container) : List String := c.members.filterMap (·.fieldName?)

/-- What of a container cannot depend on the order of the declarations that filled it. -/
structure Rearranged (c d : Container) : Prop where
  children : c.childKeys.Perm d.childKeys
  fields : c.fieldNames.Perm d.fieldNames
  overloads : (c.methods.map Method.overload).Perm (d.methods.map Method.overload)
  isTrait : c.classHead?.map (·.isTrait) = d.classHead?.map (·.isTrait)
  parents : c.head.parents.Perm d.head.parents
  comments : c.commentTexts.Perm d.commentTexts

end Container

def Mark.child? : Mark → Option Key
  | .child k => some k
  | _ => none

def Mark.field? : Mark → Option String
  | .field name => some name
  | _ => none

def Mark.overload? : Mark → Option Method.Overload
  | .overload o => some o
  | _ => none

namespace Container

variable {c d e : Container} {k : Key} {path : Path}

theorem childKeys_eq (c : Container) : c.childKeys = c.memberMarks.filterMap (·.child?) := by
  simp only [childKeys, children, memberMarks, List.map_filterMap, List.filterMap_filterMap]
  congr 1
  funext s
  cases s <;> rfl

theorem fieldNames_eq (c : Container) : c.fieldNames = c.memberMarks.filterMap (·.field?) := by
  simp only [fieldNames, memberMarks, List.filterMap_filterMap]
  congr 1
  funext s
  cases s <;> rfl

theorem overloads_eq (c : Container) :
    c.methods.map Method.overload = c.memberMarks.filterMap (·.overload?) := by
  simp only [methods, memberMarks, List.map_filterMap, List.filterMap_filterMap]
  congr 1
  funext s
  cases s <;> rfl

theorem Coherent.nodup_parents (coherent : c.Coherent) : c.head.parents.Nodup := by
  cases head : c.head with
  | classOrTrait info => exact coherent.parents info head
  | package name | object name => exact .nil

/-- Containers that show the same are the same up to order, if their comments are. -/
theorem SameMarks.rearranged (same : c.SameMarks d)
    (comments : c.commentTexts.Perm d.commentTexts) : c.Rearranged d := by
  have left := same.left.coherent
  have right := same.right.coherent
  have marks : c.memberMarks.Perm d.memberMarks :=
    (List.perm_ext_iff_of_nodup left.consistent.nodup_memberMarks
      right.consistent.nodup_memberMarks).mpr fun mark => same.mem_memberMarks_iff
  have parents : c.head.parents.Perm d.head.parents :=
    (List.perm_ext_iff_of_nodup left.nodup_parents right.nodup_parents).mpr fun type =>
      same.bears_iff (.parent type)
  refine ⟨?_, ?_, ?_, same.isTrait, parents, comments⟩
  · rw [childKeys_eq, childKeys_eq]
    exact marks.filterMap _
  · rw [fieldNames_eq, fieldNames_eq]
    exact marks.filterMap _
  · rw [overloads_eq, overloads_eq]
    exact marks.filterMap _

/-! ## Counting what was kept -/

/-- The fields and methods of a tree. -/
def kept (c : Container) : Nat := c.leaves.countP (!·.isComment)

theorem length_leaves (c : Container) : c.leaves.length = c.comments + c.kept := by
  have split := List.length_eq_countP_add_countP (fun s : Symbol => s.isComment) (l := c.leaves)
  simpa only [comments, kept, Bool.not_eq_true, Bool.decide_eq_false] using split

theorem countP_leavesOf (members : List Symbol) :
    (leavesOf members).countP (!·.isComment) =
      (members.filterMap (·.fieldName?)).length + (members.filterMap (·.method?)).length +
        ((members.filterMap (·.container?)).map kept).sum := by
  induction members with
  | nil => rfl
  | cons s members ih =>
    rw [leavesOf, List.countP_append, ih]
    cases s <;> simp only [Symbol.leaves, Symbol.isComment, Symbol.fieldName?, Symbol.method?,
      Symbol.container?, List.filterMap_cons, List.length_cons, List.map_cons, List.sum_cons,
      List.countP_cons, List.countP_nil, Bool.not_true, Bool.not_false, Bool.false_eq_true,
      ↓reduceIte, kept] <;> omega

theorem mem_children : d ∈ c.children ↔ .container d ∈ c.members := by
  rw [children, List.mem_filterMap]
  constructor
  · rintro ⟨s, member, same⟩
    cases s with
    | container e => exact Option.some.inj same ▸ member
    | comment text | field name type | method m => contradiction
  · exact fun member => ⟨_, member, rfl⟩

/-- A container holds its own fields and methods and those of its children. -/
theorem Indexed.kept_eq (indexed : c.Indexed) :
    c.kept = c.fieldNames.length + (c.methods.map Method.overload).length +
      (c.childKeys.map fun k => ((c.find? k).map kept).getD 0).sum := by
  have children : c.childKeys.map (fun k => ((c.find? k).map kept).getD 0) =
      c.children.map kept := by
    rw [childKeys, List.map_map]
    refine List.map_congr_left fun d member => ?_
    have found := indexed.find?_eq_some.mpr ⟨mem_children.mp member, rfl⟩
    simp only [Function.comp_apply, found, Option.map_some, Option.getD_some]
  rw [children, List.length_map, kept, leaves_eq, countP_leavesOf]
  rfl

/-- Related trees have related children under the same keys. -/
theorem rel_find? {related : Container → Container → Prop}
    (all : ∀ path, Option.Rel related (c.get? path) (d.get? path)) (k : Key) :
    c.find? k = none ∧ d.find? k = none ∨
      ∃ e e', c.find? k = some e ∧ d.find? k = some e' ∧
        ∀ path, Option.Rel related (e.get? path) (e'.get? path) := by
  have below := fun path => all (k :: path)
  have here := below []
  simp only [get?] at below here
  cases found : c.find? k with
  | none =>
    rw [found] at here
    cases found' : d.find? k with
    | none => exact .inl ⟨rfl, rfl⟩
    | some e' => rw [found'] at here; contradiction
  | some e =>
    rw [found] at here
    cases found' : d.find? k with
    | none => rw [found'] at here; contradiction
    | some e' =>
      simp only [found, found', Option.bind_some] at below
      exact .inr ⟨e, e', rfl, rfl, below⟩

theorem kept_eq_of_rearranged (left : c.Sound) (right : d.Sound)
    (all : ∀ path, Option.Rel Rearranged (c.get? path) (d.get? path)) : c.kept = d.kept := by
  induction c using induct generalizing d with
  | step c ih =>
    have here : c.Rearranged d := by
      cases all [] with
      | some here => exact here
    have below : ∀ k, ((c.find? k).map kept).getD 0 = ((d.find? k).map kept).getD 0 := by
      intro k
      rcases rel_find? all k with ⟨absent, absent'⟩ | ⟨e, e', found, found', inner⟩
      · rw [absent, absent']
      · have member := (left.coherent.find?_eq_some.mp found).1
        have same := ih e member (left.find? found) (right.find? found') inner
        rw [found, found']
        exact same
    rw [left.coherent.toIndexed.kept_eq, right.coherent.toIndexed.kept_eq,
      here.fields.length_eq, here.overloads.length_eq]
    simp only [below]
    rw [(here.children.map _).sum_nat]

end Container

theorem itemsOf_eq_sum (nodes : List Node) : itemsOf nodes = (nodes.map (·.items)).sum := by
  induction nodes with
  | nil => rfl
  | cons node nodes ih => rw [itemsOf, ih, List.map_cons, List.sum_cons]

/-- What an import does not keep it notes. -/
theorem length_notes_importTree (declarations : List Node) :
    (importTree declarations).notes.length + (importTree declarations).container.kept =
      itemsOf declarations := by
  have total := (Container.accounts_declareAll Container.sound_root rfl declarations).total
  have bare : Container.root.leaves.length = 0 := rfl
  have uncommented : Container.root.comments = 0 := rfl
  have leaves := (importTree declarations).container.length_leaves
  simp only [bare, uncommented] at total
  unfold importTree at leaves ⊢
  omega

/-- In whatever order they come, declarations leave the same containers in the same places. Each
of these has the same children, fields, overloads and parents, is a trait or a class in both
cases, and has the same comments, in some order; and there are as many notes. -/
theorem importTree_perm {first second : List Node} (perm : first.Perm second)
    (plain : allUnparametrized first = true) (verbose : Bool) :
    let before := importReported verbose first
    let after := importReported verbose second
    before.outcome.fault = none ∧ after.outcome.fault = none ∧
      (∀ path, Option.Rel Container.Rearranged (before.outcome.container.get? path)
        (after.outcome.container.get? path)) ∧
      before.report.notes.length = after.report.notes.length := by
  intro before after
  have plain' : allUnparametrized second = true :=
    allUnparametrized_iff.mpr fun node member =>
      allUnparametrized_iff.mp plain node (perm.mem_iff.mpr member)
  have marks : (marksOf first).Perm (marksOf second) := by
    rw [marksOf_eq_flatMap, marksOf_eq_flatMap]
    exact perm.flatMap_right _
  have same := sameMarks_importTree plain plain' fun _ => marks.mem_iff
  have all : ∀ path, Option.Rel Container.Rearranged ((importTree first).container.get? path)
      ((importTree second).container.get? path) := by
    refine same.rel_get? fun path c d found found' inner => inner.rearranged ?_
    rw [commentTexts_importTree plain found, commentTexts_importTree plain' found']
    exact marks.filterMap _
  refine ⟨fault_importTree first, fault_importTree second, all, ?_⟩
  have kept := Container.kept_eq_of_rearranged same.left same.right all
  have noted := length_notes_importTree first
  have noted' := length_notes_importTree second
  have items : itemsOf first = itemsOf second := by
    rw [itemsOf_eq_sum, itemsOf_eq_sum]
    exact (perm.map _).sum_nat
  rw [notes_importReported, notes_importReported]
  omega

/-- An object with a constructor before the interfaces of its class, which disagree on a field,
two functions that clash, a namespace, and an enumeration that becomes a comment. -/
theorem importTree_perm_reversed :
    let made : Node := .constructorMember ⟨[], [⟨"p", false, none⟩], some (.named "A" [])⟩
    let declarations : List Node := [
      .varDecl "A" (some (.objectType [made, .constructorMember ⟨[], [], none⟩])),
      .interfaceDecl (.plain "A") [] [.named "B" []] [.propertyMember "x" false (.core "number")],
      .interfaceDecl (.plain "A") [] [.named "C" []] [.propertyMember "x" false (.core "string")],
      .functionDecl "f" ⟨[], [], none⟩, .functionDecl "f" ⟨[], [], some (.core "void")⟩,
      .moduleDecl "n" [.varDecl "A" none], .enumDecl (.plain "E") ["a"]]
    let before := importReported false declarations
    let after := importReported false declarations.reverse
    declarations.Perm declarations.reverse ∧ allUnparametrized declarations = true ∧
      before.outcome.fault = none ∧ after.outcome.fault = none ∧
      (∀ path, Option.Rel Container.Rearranged (before.outcome.container.get? path)
        (after.outcome.container.get? path)) ∧
      before.report.notes.length = after.report.notes.length := by
  intro made declarations
  have perm : declarations.Perm declarations.reverse := (List.reverse_perm declarations).symm
  have plain : allUnparametrized declarations = true := rfl
  -- The two imports are not to be run.
  clear_value declarations
  exact ⟨perm, plain, importTree_perm perm plain false⟩

end Facade
