import Facade.Proofs.Growth
import Facade.Proofs.SameMarks

/-! Importing twice. The second time every declaration finds its marks in the tree already. Since
a tree only grows, and no two members of a container have the same mark, nothing can be added
then but comments, which have no mark of their own. -/
namespace Facade
open Ambient (Node)

/-- A member as its container shows it: comments are left out, and of a container among the
members only kind and name are shown. -/
def Symbol.outline? : Symbol → Option Symbol
  | .comment _ => none
  | .container c => some (.container (.fresh c.key))
  | s => some s

def Container.outline (c : Container) : List Symbol := c.members.filterMap (·.outline?)

/-- The same container with the same members, and with all its comments once more. -/
structure Container.Repeated (once twice : Container) : Prop where
  head : twice.head = once.head
  companion : twice.companion = once.companion
  outline : twice.outline = once.outline
  comments : twice.commentTexts = once.commentTexts ++ once.commentTexts

/-- A list without repetitions that begins with another one and has nothing new is that one. -/
theorem eq_of_isPrefix {α : Type} {old new : List α} (grown : old <+: new) (distinct : new.Nodup)
    (known : ∀ a, a ∈ old ↔ a ∈ new) : new = old := by
  obtain ⟨more, rfl⟩ := grown
  have apart := (List.nodup_append.mp distinct).2.2
  cases more with
  | nil => exact List.append_nil old
  | cons a more =>
    have added : a ∈ a :: more := .head _
    have there : a ∈ old := (known a).mpr (List.mem_append.mpr (.inr added))
    exact absurd rfl (apart a there a added)

theorem Head.Grows.eq_of_known {old new : Head} (grows : old.Grows new)
    (typeParams : old.typeParams = new.typeParams) (distinct : new.parents.Nodup)
    (parents : ∀ type, type ∈ old.parents ↔ type ∈ new.parents)
    (concrete : old.isConcrete = new.isConcrete) : new = old := by
  cases grows with
  | same => rfl
  | @classOrTrait first second grown =>
    have name := grown.name
    have params : second.typeParams = first.typeParams := typeParams.symm
    have supers : second.parents = first.parents := eq_of_isPrefix grown.parents distinct parents
    have trait : second.isTrait = first.isTrait := (Bool.not_inj concrete).symm
    cases first
    cases second
    simp_all

theorem MembersGrow.outline {olds news : List Symbol} (grows : MembersGrow olds news) :
    olds.filterMap (·.outline?) <+: news.filterMap (·.outline?) := by
  induction olds generalizing news with
  | nil => exact List.nil_prefix
  | cons s olds ih =>
    cases grows with
    | same _ rest =>
      rw [List.filterMap_cons, List.filterMap_cons]
      cases s.outline? with
      | none => exact ih rest
      | some shown => exact List.cons_prefix_cons.mpr ⟨rfl, ih rest⟩
    | @container old new _ _ grown rest =>
      have same : (Symbol.container new).outline? = (Symbol.container old).outline? := by
        simp only [Symbol.outline?, grown.key]
      rw [List.filterMap_cons, List.filterMap_cons, same]
      exact List.cons_prefix_cons.mpr ⟨rfl, ih rest⟩

namespace Container

variable {c d e : Container} {k : Key} {path : Path}

theorem memberMarks_eq (c : Container) : c.memberMarks = c.outline.filterMap (·.mark?) := by
  simp only [memberMarks, outline, List.filterMap_filterMap]
  congr 1
  funext s
  cases s with
  | container d => simp only [Symbol.outline?, Symbol.mark?, Option.bind_some, key_fresh]
  | comment text | field name type | method m => rfl

/-- Every member that is shown has a mark. -/
theorem length_outline (c : Container) : c.outline.length = c.memberMarks.length := by
  simp only [outline, memberMarks, List.length_filterMap_eq_countP]
  congr 1
  funext s
  cases s <;> rfl

theorem SameMarks.partner? (same : c.SameMarks d) (k : Key) : c.partner? k = d.partner? k := by
  have placed : ∀ j, (c.place? j).isSome = (d.place? j).isSome := fun j =>
    Bool.eq_iff_iff.mpr (same.bears_iff (.child j))
  simp only [Container.partner?, placed]

/-- Companions are a matter of the marks of the container around them. -/
theorem SameMarks.companion {c' d' : Container} (same : c.SameMarks d)
    (found : c.find? k = some c') (found' : d.find? k = some d') :
    d'.companion = c'.companion := by
  obtain ⟨member, key⟩ := same.left.coherent.find?_eq_some.mp found
  obtain ⟨member', key'⟩ := same.right.coherent.find?_eq_some.mp found'
  rw [same.left.coherent.linked c' member, same.right.coherent.linked d' member', key, key',
    same.partner?]

theorem Grows.outline_eq (grows : c.Grows d) (same : c.SameMarks d) : d.outline = c.outline := by
  have grown : c.outline <+: d.outline := grows.members.outline
  have marks : d.memberMarks = c.memberMarks := by
    refine eq_of_isPrefix ?_ same.right.coherent.consistent.nodup_memberMarks
      fun mark => same.mem_memberMarks_iff
    rw [memberMarks_eq, memberMarks_eq]
    exact grown.filterMap _
  refine (grown.eq_of_length ?_).symm
  rw [length_outline, length_outline, marks]

theorem Grows.head_eq (grows : c.Grows d) (same : c.SameMarks d) (before : c.Unparametrized)
    (after : d.Unparametrized) : d.head = c.head := by
  refine grows.head.eq_of_known ((before []).trans (after []).symm) ?_
    (fun type => same.bears_iff (.parent type)) (Bool.eq_iff_iff.mpr (same.bears_iff .concrete))
  cases head : d.head with
  | classOrTrait info => exact same.right.coherent.parents info head
  | package name | object name => exact .nil

theorem Unparametrized.get? (plain : c.Unparametrized) (found : c.get? path = some d) :
    d.Unparametrized := by
  induction path generalizing c with
  | nil =>
    obtain rfl := Option.some.inj found
    exact plain
  | cons k path ih =>
    obtain ⟨inner, here, below⟩ := Option.bind_eq_some_iff.mp found
    exact ih (plain.find? here) below

end Container

/-- Declarations imported twice leave the containers of a single import where they were. Each of
them is what it was, with the same members in the same order, but for its comments, which are all
there once more, behind the first ones. -/
theorem importTree_twice {declarations : List Node}
    (plain : allUnparametrized declarations = true) :
    let once := importTree declarations
    let twice := importTree (declarations ++ declarations)
    once.fault = none ∧ twice.fault = none ∧
      ∀ path, Option.Rel Container.Repeated (once.container.get? path)
        (twice.container.get? path) := by
  intro once twice
  have plain' : allUnparametrized (declarations ++ declarations) = true := by
    simpa only [allUnparametrized_iff, List.mem_append, or_self] using plain
  have doubled : marksOf (declarations ++ declarations) =
      marksOf declarations ++ marksOf declarations := by
    simp only [marksOf_eq_flatMap, List.flatMap_append]
  have same : once.container.SameMarks twice.container :=
    sameMarks_importTree plain plain' fun mark => by rw [doubled, List.mem_append, or_self]
  have continued := Container.declareAll_append Container.sound_root rfl declarations declarations
  have grows : once.container.Grows twice.container := by
    have tree : twice.container = (once.container.declareAll declarations).container :=
      congrArg (·.container) continued
    rw [tree]
    exact (Container.develops_declareAll (sound_importTree declarations)
      (isPackage_importTree declarations) declarations).grows (sound_importTree declarations)
  refine ⟨fault_importTree _, fault_importTree _, same.rel_get? ?_⟩
  intro path c d found found' inner
  obtain ⟨d', there, grown⟩ := grows.get? same.left same.right found
  obtain rfl := Option.some.inj (found'.symm.trans there)
  refine ⟨?_, ?_, grown.outline_eq inner, ?_⟩
  · exact grown.head_eq inner ((unparametrized_importTree plain).get? found)
      ((unparametrized_importTree plain').get? found')
  · rcases List.eq_nil_or_concat path with rfl | ⟨outer, k, rfl⟩
    · obtain rfl := Option.some.inj found
      obtain rfl := Option.some.inj found'
      exact (Container.evolves_declareAll .root (declarations ++ declarations)).companion.trans
        (Container.evolves_declareAll .root declarations).companion.symm
    · -- The containers around the two show the same, and so they pair the two with the same key.
      rw [List.concat_eq_append, Container.get?_concat] at found found'
      obtain ⟨around, parent, child⟩ := Option.bind_eq_some_iff.mp found
      obtain ⟨around', parent', child'⟩ := Option.bind_eq_some_iff.mp found'
      obtain ⟨_, again, outside⟩ := same.get? parent
      obtain rfl := Option.some.inj (parent'.symm.trans again)
      exact outside.companion child child'
  · rw [commentTexts_importTree plain' found', doubled, Marks.commentsAt_append,
      commentTexts_importTree plain found]

/-- A constructor before the interface of its class, accessors, two functions that clash, and an
enumeration, which leaves a comment each time. -/
theorem importTree_twice_promoted :
    let made : Node := .constructorMember ⟨[], [⟨"p", false, none⟩], some (.named "A" [])⟩
    let declarations : List Node := [
      .varDecl "A" (some (.objectType [made, .propertyMember "apply" true (.core "number")])),
      .interfaceDecl (.plain "A") [] [.named "B" []]
        [.indexMember "i" (.core "number") (.core "string")],
      .functionDecl "f" ⟨[], [], none⟩, .functionDecl "f" ⟨[], [], some (.core "void")⟩,
      .moduleDecl "n" [.enumDecl (.plain "E") ["a"]]]
    let once := importTree declarations
    let twice := importTree (declarations ++ declarations)
    allUnparametrized declarations = true ∧ once.fault = none ∧ twice.fault = none ∧
      ∀ path, Option.Rel Container.Repeated (once.container.get? path)
        (twice.container.get? path) := by
  intro made declarations
  have plain : allUnparametrized declarations = true := rfl
  -- The two imports are not to be run.
  clear_value declarations
  exact ⟨plain, importTree_twice plain⟩

end Facade
