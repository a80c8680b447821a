import Facade.Proofs.Contents

/-! Which classes are no traits. What is made for a name is a trait, and it stays one until a
constructor in the body of the object of that name is promoted. Nothing else that is declared has a
part in it. -/
namespace Facade
open Ambient (Node Signature)

/-! ## Comparing with a reference -/

namespace Ambient.Node

theorem same_named {x y : String} {as bs : List Node} :
    (Node.named x as).same (.named y bs) = (x == y && Term.sameItems (terms as) (terms bs)) := by
  simp [Node.same, Node.named, Node.term, TypeBase.term, TypeName.term, Term.same,
    Term.sameFields, Term.text, Literal.same, Literal.asNumber]

/-- Comparing with a name that is applied to arguments is a matter of these alone. -/
theorem same_named_iff {node : Node} {x : String} {bs : List Node}
    (args : ∀ as, Term.sameItems (terms as) (terms bs) = true ↔ as = bs) :
    node.same (.named x bs) = true ↔ node = .named x bs := by
  cases node with
  | typeReference base as =>
    cases base with
    | simple name =>
      cases name with
      | plain y =>
        have compared : (Node.named y as).same (.named x bs) = true ↔ y = x ∧ as = bs := by
          rw [same_named, Bool.and_eq_true, beq_iff_eq, args]
        rw [named] at compared ⊢
        simpa [named] using compared
      | core y => simp [same, named, term, TypeBase.term, TypeName.term, Term.same, Term.sameFields]
    | qualified q =>
      simp [same, named, term, TypeBase.term, TypeName.term, QualifiedTypeName.term, Term.same,
        Term.sameFields]
  | typeName name => cases name <;> simp [same, named, term, TypeName.term, Term.same]
  | typeParam p => cases p; simp [same, named, term, TypeParam.term, Term.same]
  | param p => cases p; simp [same, named, term, Param.term, Term.same]
  | signature s => cases s; simp [same, named, term, Signature.term, Term.same]
  | _ => simp [same, named, term, Term.same, Term.identifier, propertyTerm, Literal.term,
      QualifiedTypeName.term]

theorem sameItems_named_iff (as : List Node) (names : List String) :
    Term.sameItems (terms as) (terms (names.map (.named · []))) = true ↔
      as = names.map (.named · []) := by
  have empty : ∀ as, Term.sameItems (terms as) (terms []) = true ↔ as = [] := by
    intro as
    cases as <;> simp [terms, Term.sameItems]
  induction names generalizing as with
  | nil => exact empty as
  | cons name names ih =>
    cases as with
    | nil => simp [terms, Term.sameItems]
    | cons a as =>
      have first : a.same (.named name []) = true ↔ a = .named name [] := same_named_iff empty
      rw [same] at first
      simp only [List.map_cons, terms, Term.sameItems, Bool.and_eq_true, first, ih, List.cons.injEq]

/-- The result of a constructor is compared with a name that is applied to type parameters. -/
theorem any_same_named {result : Option Node} {x : String} {names : List String} :
    result.any (·.same (.named x (names.map (.named · [])))) = true ↔
      result = some (.named x (names.map (.named · []))) := by
  have each (node : Node) : node.same (.named x (names.map (.named · []))) = true ↔
      node = .named x (names.map (.named · [])) :=
    same_named_iff fun as => sameItems_named_iff as names
  simp only [Option.any_eq_true, each, exists_eq_right]

end Ambient.Node

/-! ## Classes that are no traits -/

def Head.IsClass : Head → Prop
  | .classOrTrait info => info.isTrait = false
  | _ => False

namespace Container

variable {c d old new owner : Container} {j k : Key} {x : String}

/-- The class of a name is no trait. -/
def Concrete (c : Container) (x : String) : Prop := (c.childAt ⟨.classOrTrait, x⟩).head.IsClass

/-- A declaration has a constructor for the class of a name. -/
def Promotes (c : Container) (x : String) (node : Node) : Prop :=
  ∃ members s, node = .varDecl x (some (.objectType members)) ∧ .constructorMember s ∈ members ∧
    s.result = some (c.companionReference x)

theorem concrete_of_find? (found : c.find? ⟨.classOrTrait, x⟩ = some d) :
    c.Concrete x ↔ d.head.IsClass := by
  rw [Concrete, childAt_of_find? found]

theorem not_concrete_of_absent (absent : c.find? ⟨.classOrTrait, x⟩ = none) : ¬ c.Concrete x := by
  rw [Concrete, childAt, absent]
  exact Bool.noConfusion

theorem any_same_companionReference {s : Signature} :
    s.result.any (·.same (c.companionReference x)) = true ↔
      s.result = some (c.companionReference x) := by
  have reference : c.companionReference x =
      .named x (((c.paramsAt [⟨.classOrTrait, x⟩]).map (·.name)).map (.named · [])) := by
    rw [companionReference_eq, List.map_map]
    rfl
  rw [reference, Ambient.Node.any_same_named]

/-! ### One change -/

theorem Sound.concrete_ensure (sound : c.Sound) (j : Key) (x : String) :
    (c.ensure j).Concrete x ↔ c.Concrete x := by
  rw [Concrete, (sound.childAt_ensure j _).2, Concrete]

theorem Indexed.concrete_replace (indexed : c.Indexed) (found : c.find? j = some old)
    (kept : j = ⟨.classOrTrait, x⟩ → (new.head.IsClass ↔ old.head.IsClass)) :
    (c.replace j new).Concrete x ↔ c.Concrete x := by
  rw [Concrete, indexed.childAt_replace found]
  split
  · next same =>
    subst j
    rw [kept rfl, concrete_of_find? found]
  · rfl

theorem head_enterAll (c : Container) (entries : List Entry) :
    (c.enterAll entries).container.head = c.head := by
  induction entries generalizing c with
  | nil => rfl
  | cons entry entries ih => exact (ih _).trans (head_enter c entry)

theorem Sound.concrete_enter (sound : c.Sound) (entry : Entry) (x : String) :
    (c.enter entry).container.Concrete x ↔ c.Concrete x := by
  rw [Concrete, Concrete, childAt, sound.coherent.find?_enter_eq, childAt]

theorem Sound.concrete_openClass (sound : c.Sound) (y x : String) :
    (c.openClass y).Concrete x ↔ c.Concrete x ∨ y = x := by
  obtain ⟨d, found, key⟩ := sound.coherent.exists_find?_ensure ⟨.classOrTrait, y⟩
  obtain ⟨info, head, _⟩ := Head.key_eq_classOrTrait.mp key
  by_cases same : y = x
  · subst same
    have cleared : (d.setTrait false).head.IsClass := by
      simp only [setTrait, modifyClass, head, Head.IsClass]
    have there : (c.openClass y).find? ⟨.classOrTrait, y⟩ = some (d.setTrait false) :=
      find?_modify_self found
    simp [concrete_of_find? there, cleared]
  · rw [openClass, modify_of_find? found, (sound.ensure _).coherent.concrete_replace found,
      sound.concrete_ensure, or_iff_left same]
    exact fun own => absurd (Key.mk.inj own).2 same

end Container

namespace Walk

variable {w : Walk} {k : Key} {owner : Container}

theorem concrete_enterAt (sound : w.tree.Sound) (found : w.tree.find? k = some owner)
    (entries : List Entry) (x : String) :
    (w.enterAt [k] entries).tree.Concrete x ↔ w.tree.Concrete x := by
  rw [enterAt_key found, sound.coherent.concrete_replace found]
  intro _
  rw [owner.head_enterAll]

theorem concrete_promote (sound : w.tree.Sound) (y x : String) (s : Signature) :
    (w.promote [] y s).tree.Concrete x ↔ w.tree.Concrete x ∨ y = x := by
  obtain ⟨d, found⟩ := sound.coherent.exists_find?_openClass y
  have opened := (Container.evolves_openClass w.tree y).sound sound
  rw [promote_nil, concrete_enterAt (w := { w with tree := w.tree.openClass y }) opened found,
    sound.concrete_openClass]

end Walk

namespace Container

variable {c owner : Container} {k : Key}

/-! ### Bodies -/

theorem Sound.concrete_constructor (sound : c.Sound) (found : c.find? k = some owner)
    (s : Signature) (x : String) :
    (c.walkBody ⟨[], [k]⟩ [.constructorMember s]).container.Concrete x ↔
      c.Concrete x ∨ k = ⟨.object, x⟩ ∧ s.result = some (c.companionReference x) := by
  change (Walk.constructor { tree := c } ⟨[], [k]⟩ s).tree.Concrete x ↔ _
  have key := sound.coherent.key_of_find? found
  obtain ⟨kind, y⟩ := k
  by_cases object : kind = .object
  · subst kind
    have head : owner.head = .object y := Head.key_eq_object.mp key
    rw [Walk.constructor_object (Walk.current_begun c _) found head rfl]
    dsimp only
    split
    · next fits =>
      have result := any_same_companionReference.mp fits
      rw [Walk.concrete_promote (w := { tree := c, companion := some _ }) sound]
      refine or_congr_right ⟨?_, fun own => (Key.mk.inj own.1).2⟩
      rintro rfl
      exact ⟨rfl, result⟩
    · next differs =>
      rw [Walk.concrete_enterAt (w := { tree := c, companion := some _ }) sound found,
        or_iff_left]
      rintro ⟨own, fits⟩
      obtain rfl := (Key.mk.inj own).2
      exact differs (any_same_companionReference.mpr fits)
  · have elsewhere : ∀ other name, c.find? ⟨kind, y⟩ = some other → other.head ≠ .object name := by
      intro other name there head
      obtain rfl := Option.some.inj (found.symm.trans there)
      rw [Container.key, head] at key
      exact object (Key.mk.inj key).1.symm
    rw [Walk.constructor_elsewhere elsewhere,
      Walk.concrete_enterAt (w := { tree := c }) sound found, or_iff_left]
    exact fun own => object (Key.mk.inj own.1).1

/-- A body makes a class of a trait only if it is that of the object beside it. -/
theorem Sound.concrete_walkBody (sound : c.Sound) (found : c.find? k = some owner)
    (nodes : List Node) (x : String) :
    (c.walkBody ⟨[], [k]⟩ nodes).container.Concrete x ↔
      c.Concrete x ∨ k = ⟨.object, x⟩ ∧
        ∃ s, .constructorMember s ∈ nodes ∧ s.result = some (c.companionReference x) := by
  induction nodes generalizing c owner with
  | nil => simp [walkBody, Walk.members]
  | cons node nodes ih =>
    have first := evolves_walkBody c ⟨[], [k]⟩ [node]
    obtain ⟨_, kept⟩ := first.find? sound found
    have rest := ih (first.sound sound) kept
    -- No member changes the type parameters, so that every constructor is compared with one name.
    rw [(sound.sameParams_walkBody _ [node]).companionReference] at rest
    have split := sound.walkBody_append k [node] nodes
    rw [List.singleton_append] at split
    rw [split]
    dsimp only
    rw [rest]
    by_cases constructs : ∃ s, node = .constructorMember s
    · obtain ⟨s, rfl⟩ := constructs
      rw [sound.concrete_constructor found s x, or_assoc, ← and_or_left]
      simp only [List.mem_cons, Ambient.Node.constructorMember.injEq, or_and_right, exists_or,
        exists_eq_left]
    · have here : (c.walkBody ⟨[], [k]⟩ [node]).container.Concrete x ↔ c.Concrete x := by
        cases node with
        | constructorMember s => exact absurd ⟨s, rfl⟩ constructs
        | _ => exact Walk.concrete_enterAt (w := { tree := c }) sound found _ x
      have others (s : Signature) : Node.constructorMember s ≠ node := fun same =>
        constructs ⟨s, same.symm⟩
      simp only [here, List.mem_cons, others, false_or]

theorem Sound.concrete_fill (sound : c.Sound) (k : Key) (members : List Node) (x : String) :
    (c.fill k members).container.Concrete x ↔ c.Concrete x ∨ k = ⟨.object, x⟩ ∧
      ∃ s, .constructorMember s ∈ members ∧ s.result = some (c.companionReference x) := by
  obtain ⟨_, found, _⟩ := sound.coherent.exists_find?_ensure k
  rw [fill, (sound.ensure k).concrete_walkBody found, sound.concrete_ensure,
    (sound.coherent.sameParams_ensure k).companionReference]

theorem Sound.concrete_declareInterface (sound : c.Sound) (name : String)
    (typeParams : List TypeParam) (parents : List HostType) (members : List Node) (x : String) :
    (c.declareInterface name typeParams parents members).container.Concrete x ↔ c.Concrete x := by
  obtain ⟨_, there⟩ := sound.coherent.exists_find?_extendClass name typeParams parents
  obtain ⟨d, found, key⟩ := sound.coherent.exists_find?_ensure ⟨.classOrTrait, name⟩
  obtain ⟨info, head, _⟩ := Head.key_eq_classOrTrait.mp key
  have extended : (c.extendClass name typeParams parents).Concrete x ↔ c.Concrete x := by
    rw [extendClass, modify_of_find? found, (sound.ensure _).coherent.concrete_replace found,
      sound.concrete_ensure]
    intro _
    simp only [addTypeParams, addParents, modifyClass, head, Head.IsClass,
      ClassHead.isTrait_addParents]
  rw [declareInterface_eq,
    ((evolves_extendClass c _ _ _).sound sound).concrete_walkBody there, extended]
  exact or_iff_left fun own => Kind.noConfusion (Key.mk.inj own.1).1

/-! ### Declarations -/

theorem Sound.concrete_declare (sound : c.Sound) (package : c.isPackage = true) (node : Node)
    (x : String) :
    (c.declare node).container.Concrete x ↔ c.Concrete x ∨ c.Promotes x node := by
  cases node.form with
  | package name members =>
    obtain ⟨inner, found, _, done⟩ := sound.declare_moduleDecl package name members
    rw [done, (sound.ensure _).coherent.concrete_replace found, sound.concrete_ensure]
    · simp [Promotes]
    · exact fun own => Kind.noConfusion (Key.mk.inj own).1
  | object name members =>
    refine (sound.concrete_fill _ members x).trans (or_congr_right ?_)
    constructor
    · rintro ⟨own, s, member, fits⟩
      obtain rfl := (Key.mk.inj own).2
      exact ⟨members, s, rfl, member, fits⟩
    · rintro ⟨_, s, ⟨⟩, member, fits⟩
      exact ⟨rfl, s, member, fits⟩
  | record name members =>
    refine (sound.concrete_fill _ members x).trans (or_congr_right ?_)
    simp [Promotes]
  | interface name typeParams parents members =>
    refine (sound.concrete_declareInterface _ _ _ members x).trans ?_
    simp [Promotes]
  | single single =>
    rw [declare_single single, sound.concrete_enter, or_iff_left]
    rintro ⟨members, s, rfl, _⟩
    contradiction

/-- A class is no trait exactly if it was none before, or if a constructor was promoted when its
declaration came. -/
theorem Sound.concrete_declareAll (sound : c.Sound) (package : c.isPackage = true)
    (nodes : List Node) (x : String) :
    (c.declareAll nodes).container.Concrete x ↔ c.Concrete x ∨
      ∃ before node after, nodes = before ++ node :: after ∧
        (c.declareAll before).container.Promotes x node := by
  induction nodes generalizing c with
  | nil => simp [declareAll]
  | cons first nodes ih =>
    have evolves := evolves_declare c first
    have rest := ih (evolves.sound sound) (evolves.isPackage.trans package)
    rw [declareAll_cons sound package]
    dsimp only
    rw [rest, sound.concrete_declare package, or_assoc]
    refine or_congr_right ⟨?_, ?_⟩
    · rintro (now | ⟨before, node, after, rfl, later⟩)
      · exact ⟨[], first, nodes, rfl, now⟩
      · refine ⟨first :: before, node, after, rfl, ?_⟩
        rwa [declareAll_cons sound package]
    · rintro ⟨before, node, after, split, promotes⟩
      cases before with
      | nil =>
        obtain ⟨rfl, rfl⟩ := List.cons.inj split
        exact .inl promotes
      | cons _ before =>
        obtain ⟨rfl, rfl⟩ := List.cons.inj split
        rw [declareAll_cons sound package] at promotes
        exact .inr ⟨before, node, after, rfl, promotes⟩

end Container

end Facade
