import Facade.Proofs.Splitting

/-! The marks that declarations leave in a tree: the children that were opened, the names of
fields, the overloads, the parents, and the comments. Which of several declarations came first
cannot be told from them, and where no class has type parameters the marks of a declaration
depend on nothing but the declaration. -/
namespace Facade
open Ambient (Node Signature)

/-- Something that one container shows. -/
inductive Mark where
  | child (key : Key)
  | field (name : String)
  | overload (overload : Method.Overload)
  | parent (type : HostType)
  | concrete
  | comment (text : String)
  deriving DecidableEq

def Mark.comment? : Mark → Option String
  | .comment text => some text
  | _ => none

def Symbol.comment? : Symbol → Option String
  | .comment text => some text
  | _ => none

def Head.parents : Head → List HostType
  | .classOrTrait info => info.parents
  | _ => []

/-- A class that has stopped being a trait. -/
def Head.isConcrete : Head → Bool
  | .classOrTrait info => !info.isTrait
  | _ => false

/-- Marks at places of a tree. -/
abbrev Marks := List (Path × Mark)

namespace Marks

def here (marks : List Mark) : Marks := marks.map ([], ·)

/-- Marks of a tree, as marks of the tree that has it under a key. -/
def under (k : Key) (marks : Marks) : Marks := marks.map fun (path, mark) => (k :: path, mark)

/-- The texts of the comments at a place, in order. -/
def commentsAt (path : Path) (marks : Marks) : List String :=
  marks.filterMap fun (place, mark) => if place = path then mark.comment? else none

variable {k : Key} {path : Path} {mark : Mark} {marks first second : Marks}

@[simp] theorem mem_here {own : List Mark} : (path, mark) ∈ here own ↔ path = [] ∧ mark ∈ own := by
  simp only [here, List.mem_map, Prod.mk.injEq]
  constructor
  · rintro ⟨own, member, rfl, rfl⟩
    exact ⟨rfl, member⟩
  · rintro ⟨rfl, member⟩
    exact ⟨mark, member, rfl, rfl⟩

@[simp] theorem mem_under_nil : ([], mark) ∉ under k marks := by
  simp [under]

@[simp] theorem mem_under_cons {j : Key} :
    (j :: path, mark) ∈ under k marks ↔ j = k ∧ (path, mark) ∈ marks := by
  simp only [under, List.mem_map, Prod.exists, Prod.mk.injEq, List.cons.injEq]
  constructor
  · rintro ⟨path', mark', member, ⟨rfl, rfl⟩, rfl⟩
    exact ⟨rfl, member⟩
  · rintro ⟨rfl, member⟩
    exact ⟨path, mark, member, ⟨rfl, rfl⟩, rfl⟩

@[simp] theorem commentsAt_nil : commentsAt path [] = [] := rfl

@[simp] theorem commentsAt_append :
    commentsAt path (first ++ second) = commentsAt path first ++ commentsAt path second :=
  List.filterMap_append

@[simp] theorem commentsAt_here_nil {own : List Mark} :
    commentsAt [] (here own) = own.filterMap (·.comment?) := by
  unfold commentsAt here
  rw [List.filterMap_map]
  rfl

@[simp] theorem commentsAt_here_cons {own : List Mark} :
    commentsAt (k :: path) (here own) = [] := by
  simp [commentsAt, here]

@[simp] theorem commentsAt_under_nil : commentsAt [] (under k marks) = [] := by
  simp [commentsAt, under]

theorem commentsAt_under_self : commentsAt (k :: path) (under k marks) = commentsAt path marks := by
  unfold commentsAt under
  rw [List.filterMap_map]
  congr 1
  funext place
  simp only [Function.comp_apply, List.cons.injEq, true_and]

theorem commentsAt_under_of_ne {j : Key} (differ : j ≠ k) :
    commentsAt (j :: path) (under k marks) = [] := by
  have apart : k ≠ j := differ.symm
  simp [commentsAt, under, apart]

end Marks

namespace Container
open Marks (here under)

variable {c d e new old : Container} {j k : Key} {path : Path} {mark : Mark} {x : String}
variable {marks first second : Marks}

def commentTexts (c : Container) : List String := c.members.filterMap (·.comment?)

def Bears (c : Container) : Mark → Prop
  | .child k => (c.place? k).isSome = true
  | .field name => c.hasField name = true
  | .overload o => c.hasOverload o = true
  | .parent type => type ∈ c.head.parents
  | .concrete => c.head.isConcrete = true
  | .comment text => text ∈ c.commentTexts

def BearsAt (c : Container) (path : Path) (mark : Mark) : Prop :=
  ∃ d, c.get? path = some d ∧ d.Bears mark

/-- The comments at a place, and none where there is no container. -/
def commentsAt (c : Container) (path : Path) : List String :=
  ((c.get? path).map (·.commentTexts)).getD []

theorem bearsAt_nil : c.BearsAt [] mark ↔ c.Bears mark := by
  simp only [BearsAt, get?, Option.some.injEq, exists_eq_left']

theorem bearsAt_cons :
    c.BearsAt (k :: path) mark ↔ ∃ d, c.find? k = some d ∧ d.BearsAt path mark := by
  simp only [BearsAt, get?, Option.bind_eq_some_iff]
  constructor
  · rintro ⟨e, ⟨d, found, below⟩, bears⟩
    exact ⟨d, found, e, below, bears⟩
  · rintro ⟨d, found, e, below, bears⟩
    exact ⟨e, ⟨d, found, below⟩, bears⟩

theorem commentsAt_nil (c : Container) : c.commentsAt [] = c.commentTexts := rfl

theorem commentsAt_cons (c : Container) (k : Key) (path : Path) :
    c.commentsAt (k :: path) = ((c.find? k).map (·.commentsAt path)).getD [] := by
  simp only [commentsAt, get?]
  cases c.find? k <;> rfl

theorem not_bears_fresh (k : Key) (mark : Mark) : ¬ (fresh k).Bears mark := by
  obtain ⟨kind, name⟩ := k
  cases mark <;> cases kind <;>
    simp [Bears, fresh, place?, hasField, hasOverload, Head.fresh, Head.parents, Head.isConcrete,
      commentTexts]

theorem not_bearsAt_fresh (k : Key) (path : Path) (mark : Mark) :
    ¬ (fresh k).BearsAt path mark := by
  cases path with
  | nil => exact fun bears => not_bears_fresh k mark (bearsAt_nil.mp bears)
  | cons j path =>
    intro bears
    obtain ⟨d, found, _⟩ := bearsAt_cons.mp bears
    contradiction

theorem commentTexts_concat {s : Symbol} (members : d.members = c.members ++ [s]) :
    d.commentTexts = c.commentTexts ++ s.comment?.toList := by
  rw [commentTexts, members, List.filterMap_append, commentTexts]
  cases s <;> rfl

theorem commentsAt_fresh (k : Key) (path : Path) : (fresh k).commentsAt path = [] := by
  cases path with
  | nil => rfl
  | cons j path => rfl

/-- A later tree has what the earlier one had, the given marks, and nothing else to show; the
comments of each container are those it had and then those that are marked. -/
structure Marked (c : Container) (marks : Marks) (d : Container) : Prop where
  bears : ∀ path mark, d.BearsAt path mark ↔ c.BearsAt path mark ∨ (path, mark) ∈ marks
  comments : ∀ path, d.commentsAt path = c.commentsAt path ++ marks.commentsAt path

theorem Marked.refl (c : Container) : Marked c [] c where
  bears path mark := by simp
  comments path := by simp

theorem Marked.trans (before : Marked c first d) (after : Marked d second e) :
    Marked c (first ++ second) e where
  bears path mark := by rw [after.bears, before.bears, List.mem_append, or_assoc]
  comments path := by
    rw [after.comments, before.comments, Marks.commentsAt_append, List.append_assoc]

/-! ## Changes to one container -/

theorem marked_of_find? {own : List Mark}
    (bears : ∀ mark, d.Bears mark ↔ c.Bears mark ∨ mark ∈ own)
    (comments : d.commentTexts = c.commentTexts ++ own.filterMap (·.comment?))
    (kept : ∀ k, d.find? k = c.find? k) : Marked c (here own) d where
  bears path mark := by
    cases path with
    | nil => simp only [bearsAt_nil, bears, Marks.mem_here, true_and]
    | cons k path =>
      simp only [bearsAt_cons, kept, Marks.mem_here, reduceCtorEq, false_and, or_false]
  comments path := by
    cases path with
    | nil => rw [commentsAt_nil, comments, Marks.commentsAt_here_nil, commentsAt_nil]
    | cons k path =>
      rw [commentsAt_cons, kept, Marks.commentsAt_here_cons, List.append_nil, commentsAt_cons]

end Container

/-- What an entry shows once it has come in, whether or not the like of it was there before. -/
def Entry.marks : Entry → List Mark
  | .field name _ => [.field name]
  | .method m => [.overload m.overload]
  | .specialized _ => []
  | .placeholder node => [.comment (placeholderText node)]

namespace Container
open Marks (here under)

variable {c d e new old : Container} {j k : Key} {path : Path} {mark : Mark} {x : String}
variable {marks first second : Marks}

theorem hasField_addField (c : Container) (name : String) (type : HostType) :
    (c.addField name type).hasField x = (c.hasField x || x == name) := by
  simp only [hasField, addField, List.lookup_append, List.lookup_cons, Option.isSome_or]
  cases x == name <;> simp

theorem hasOverload_addMethod (c : Container) (m : Method) (o : Method.Overload) :
    (c.addMethod m).hasOverload o = (c.hasOverload o || o == m.overload) := by
  simp only [hasOverload, addMethod, List.contains_append, List.contains_cons, List.contains_nil,
    Bool.or_false]

theorem bears_addField (c : Container) (name : String) (type : HostType) :
    (c.addField name type).Bears mark ↔ c.Bears mark ∨ mark = .field name := by
  cases mark with
  | field x => simp [Bears, hasField_addField]
  | comment text => simp [Bears, commentTexts, addField, append, Symbol.comment?]
  | child k | overload o | parent type | concrete => simp [Bears]; rfl

theorem bears_addMethod (c : Container) (m : Method) :
    (c.addMethod m).Bears mark ↔ c.Bears mark ∨ mark = .overload m.overload := by
  cases mark with
  | overload o => simp [Bears, hasOverload_addMethod]
  | comment text => simp [Bears, commentTexts, addMethod, append, Symbol.comment?]
  | child k | field x | parent type | concrete => simp [Bears]; rfl

theorem bears_addComment (c : Container) (text : String) :
    (c.addComment text).Bears mark ↔ c.Bears mark ∨ mark = .comment text := by
  cases mark with
  | comment other => simp [Bears, commentTexts, addComment, append, Symbol.comment?]
  | child k | field x | overload o | parent type | concrete => simp [Bears]; rfl

theorem bears_enter (c : Container) (entry : Entry) :
    (c.enter entry).container.Bears mark ↔ c.Bears mark ∨ mark ∈ entry.marks := by
  cases entry with
  | field name type =>
    rw [enter_field, Entry.marks, List.mem_singleton]
    split
    · next taken => exact (or_iff_left_of_imp fun same => same ▸ taken).symm
    · exact bears_addField c name type
  | method m =>
    rw [enter_method, Entry.marks, List.mem_singleton]
    split
    · next taken => exact (or_iff_left_of_imp fun same => same ▸ taken).symm
    · exact bears_addMethod c m
  | specialized name => simp [enter, Entry.marks]
  | placeholder node =>
    rw [Entry.marks, List.mem_singleton]
    exact bears_addComment c (placeholderText node)

theorem commentTexts_enter (c : Container) (entry : Entry) :
    (c.enter entry).container.commentTexts =
      c.commentTexts ++ entry.marks.filterMap (·.comment?) := by
  cases entry with
  | field name type =>
    rw [enter_field]
    split <;> simp [commentTexts, addField, append, Entry.marks, Mark.comment?, Symbol.comment?]
  | method m =>
    rw [enter_method]
    split <;> simp [commentTexts, addMethod, append, Entry.marks, Mark.comment?, Symbol.comment?]
  | specialized name => simp [enter, Entry.marks]
  | placeholder node =>
    simp [enter, commentTexts, addComment, append, Entry.marks, Mark.comment?, Symbol.comment?]

theorem Indexed.marked_enter (indexed : c.Indexed) (entry : Entry) :
    Marked c (here entry.marks) (c.enter entry).container :=
  marked_of_find? (fun _ => bears_enter c entry) (commentTexts_enter c entry)
    fun _ => indexed.find?_enter_eq entry

theorem Sound.marked_enterAll (sound : c.Sound) (entries : List Entry) :
    Marked c (here (entries.flatMap (·.marks))) (c.enterAll entries).container := by
  induction entries generalizing c with
  | nil => exact .refl c
  | cons entry entries ih =>
    have first := sound.coherent.toIndexed.marked_enter entry
    have rest := ih ((evolves_enter c entry).sound sound)
    have split : here ((entry :: entries).flatMap (·.marks)) =
        here entry.marks ++ here (entries.flatMap (·.marks)) := by
      simp only [here, List.flatMap_cons, List.map_append]
    rw [split]
    exact first.trans rest

theorem mem_parents_addParents (info : ClassHead) (types : List HostType) (type : HostType) :
    type ∈ (info.addParents types).parents ↔ type ∈ info.parents ∨ type ∈ types := by
  induction types generalizing info with
  | nil => simp [ClassHead.addParents]
  | cons first types ih =>
    unfold ClassHead.addParents
    split
    · next taken =>
      have member : first ∈ info.parents := List.contains_iff_mem.mp taken
      rw [ih, List.mem_cons]
      constructor
      · rintro (old | new)
        · exact .inl old
        · exact .inr (.inr new)
      · rintro (old | rfl | new)
        · exact .inl old
        · exact .inl member
        · exact .inr new
    · rw [ih, List.mem_append, List.mem_singleton, List.mem_cons, or_assoc]

/-- A class takes parents, and an interface without type parameters changes nothing else. -/
theorem marked_addParents {info : ClassHead} (head : c.head = .classOrTrait info)
    (types : List HostType) :
    Marked c (here (types.map .parent)) ((c.addParents types).addTypeParams []) := by
  have grown : (c.addParents types).addTypeParams [] =
      { c with head := .classOrTrait (info.addParents types) } := by
    simp only [addTypeParams, addParents, modifyClass, head, List.append_nil]
  have uncommented : (types.map Mark.parent).filterMap (·.comment?) = [] := by
    rw [List.filterMap_map]
    exact List.filterMap_eq_nil_iff.mpr fun _ _ => rfl
  rw [grown]
  refine marked_of_find? (fun mark => ?_) ?_ fun _ => rfl
  · cases mark with
    | parent type => simp [Bears, Head.parents, head, mem_parents_addParents]
    | concrete => simp [Bears, Head.isConcrete, head]
    | child k | field x | overload o | comment text => simp [Bears]; rfl
  · rw [uncommented, List.append_nil]
    rfl

theorem marked_untrait {info : ClassHead} (head : c.head = .classOrTrait info) :
    Marked c (here [.concrete]) (c.setTrait false) := by
  have cleared : c.setTrait false =
      { c with head := .classOrTrait { info with isTrait := false } } := by
    simp [setTrait, modifyClass, head]
  rw [cleared]
  refine marked_of_find? (fun mark => ?_) ?_ fun _ => rfl
  · cases mark with
    | concrete => simp [Bears, Head.isConcrete]
    | parent type => simp [Bears, Head.parents, head]
    | child k | field x | overload o | comment text => simp [Bears]; rfl
  · exact (List.append_nil _).symm

/-! ## Changes below a container -/

theorem Indexed.commentTexts_replace (indexed : c.Indexed) (found : c.find? k = some old)
    (new : Container) : (c.replace k new).commentTexts = c.commentTexts := by
  have same : Symbol.comment? ∘ Symbol.supplant k new = Symbol.comment? := by
    funext s
    cases s <;> rfl
  simp only [commentTexts, indexed.members_replace found, List.filterMap_map, same]

theorem Indexed.bears_replace (indexed : c.Indexed) (found : c.find? k = some old)
    (new : Container) : (c.replace k new).Bears mark ↔ c.Bears mark := by
  cases mark with
  | comment text => simp only [Bears, indexed.commentTexts_replace found]
  | child j => simp only [Bears, place?_replace]
  | field name => simp only [Bears, hasField, index_replace]
  | overload o => simp only [Bears, hasOverload, index_replace]
  | parent type | concrete => simp only [Bears, head_replace]

theorem Indexed.marked_replace (indexed : c.Indexed) (found : c.find? k = some old)
    (inner : Marked old marks new) : Marked c (under k marks) (c.replace k new) where
  bears path mark := by
    cases path with
    | nil => simp only [bearsAt_nil, indexed.bears_replace found, Marks.mem_under_nil, or_false]
    | cons j path =>
      rw [bearsAt_cons, bearsAt_cons, Marks.mem_under_cons]
      by_cases same : j = k
      · subst j
        simp only [find?_replace_self found, found, Option.some.injEq, exists_eq_left', true_and]
        exact inner.bears path mark
      · simp only [indexed.find?_replace_of_ne same, same, false_and, or_false]
  comments path := by
    cases path with
    | nil =>
      rw [commentsAt_nil, indexed.commentTexts_replace found, Marks.commentsAt_under_nil,
        List.append_nil, commentsAt_nil]
    | cons j path =>
      rw [commentsAt_cons, commentsAt_cons]
      by_cases same : j = k
      · subst j
        rw [find?_replace_self found, found, Marks.commentsAt_under_self]
        exact inner.comments path
      · rw [indexed.find?_replace_of_ne same, Marks.commentsAt_under_of_ne same, List.append_nil]

theorem Indexed.marked_modify (indexed : c.Indexed) (found : c.find? k = some old)
    {f : Container → Container} (inner : Marked old marks (f old)) :
    Marked c (under k marks) (c.modify k f) := by
  rw [modify_of_find? found]
  exact indexed.marked_replace found inner

theorem marked_linkTo (c : Container) (k : Key) : Marked c [] (linkTo k c) := by
  have unmarked : Marked c (here []) (linkTo k c) :=
    marked_of_find? (fun mark => by cases mark <;> simp [Bears] <;> rfl)
      (List.append_nil _).symm fun _ => rfl
  exact unmarked

theorem Indexed.marked_linkOne (indexed : c.Indexed) (j k : Key) :
    Marked c [] (c.modify j (linkTo k)) := by
  cases found : c.find? j with
  | none =>
    rw [modify_of_absent found]
    exact .refl c
  | some d => exact indexed.marked_modify found (marked_linkTo d k)

theorem Indexed.marked_create (indexed : c.Indexed) (absent : c.place? k = none) :
    Marked c (here [.child k]) (c.create k) := by
  have created : (c.create k).members = c.members ++ [.container (fresh k)] := rfl
  have none : c.find? k = none := by rw [Container.find?, absent, Option.bind_none]
  refine ⟨fun path mark => ?_, fun path => ?_⟩
  · cases path with
    | nil =>
      simp only [bearsAt_nil, Marks.mem_here, true_and, List.mem_singleton]
      cases mark with
      | child j =>
        simp only [Bears, Mark.child.injEq]
        by_cases same : j = k
        · subst j
          simp [place?_create_self absent]
        · simp [place?_create_of_ne same, same]
      | comment text => simp [Bears, commentTexts_concat created, Symbol.comment?]
      | field x | overload o | parent type | concrete => simp [Bears]; rfl
    | cons j path =>
      simp only [bearsAt_cons, Marks.mem_here, reduceCtorEq, false_and, or_false]
      by_cases same : j = k
      · subst same
        simp [find?_create_self absent, none, not_bearsAt_fresh]
      · rw [indexed.find?_create_of_ne_eq same]
  · cases path with
    | nil =>
      simp [commentsAt_nil, commentTexts_concat created, Symbol.comment?, Mark.comment?]
    | cons j path =>
      rw [Marks.commentsAt_here_cons, List.append_nil, commentsAt_cons, commentsAt_cons]
      by_cases same : j = k
      · subst same
        rw [find?_create_self absent, none]
        exact commentsAt_fresh j path
      · rw [indexed.find?_create_of_ne_eq same]

/-- A child that is there already bears the mark of having been opened. -/
theorem marked_opened (there : (c.place? k).isSome = true) : Marked c (here [.child k]) c :=
  marked_of_find?
    (fun _ => (or_iff_left_of_imp fun member => List.mem_singleton.mp member ▸ there).symm)
    (List.append_nil _).symm fun _ => rfl

theorem Coherent.marked_ensure (coherent : c.Coherent) (k : Key) :
    Marked c (here [.child k]) (c.ensure k) := by
  cases placed : c.place? k with
  | some i =>
    rw [ensure_of_place? placed]
    exact marked_opened (placed ▸ rfl)
  | none =>
    have made := coherent.toIndexed.create placed
    have created := coherent.toIndexed.marked_create placed
    cases met : c.partner? k with
    | none => rwa [ensure_alone placed met]
    | some j =>
      rw [ensure_linked placed met]
      exact created.trans ((made.marked_linkOne j k).trans ((made.linkOne j k).marked_linkOne k j))

end Container
end Facade
