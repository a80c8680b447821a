import Facade.Proofs.Growth
import Facade.Proofs.Promotion

/-! An interface in several pieces. Its class gets the type parameters of all pieces, one list
after the other, even where the pieces repeat one list. The companion is referred to with the
type parameters which the class has by then, so that a constructor is promoted if its result is
applied to all of these, and is left as a placeholder otherwise. -/
namespace Facade
open Ambient (Node Signature)

namespace Ambient.Node

/-- References by name to types that are no applications themselves. -/
theorem sameItems_named (as bs : List String) :
    Term.sameItems (terms (as.map (.named · []))) (terms (bs.map (.named · []))) =
      (as == bs) := by
  have apart (a b : String) (same : Node.named a [] = Node.named b []) : a = b := by
    injection same with base
    injection base with name
    injection name
  rw [Bool.eq_iff_iff, sameItems_named_iff, List.map_inj_right apart, beq_iff_eq]

end Ambient.Node

namespace Container

variable {c d : Container} {x : String} {s : Signature}

/-! ## Where constructors go -/

/-- A class with a constructor of the given parameters, unless one of these is of a constant
type. -/
structure Constructs (c : Container) (s : Signature) : Prop where
  isClass : ∃ info, c.head = .classOrTrait info ∧ info.isTrait = false
  constructor : s.params.any (·.isConstant) = false → ∃ m, .method m ∈ c.members ∧
    m.overload =
      (Signature.method ⟨[], s.params, some (.core "void")⟩ Method.constructorName).overload

/-- Where a constructor in the body of an object went: to the class, or to a placeholder. -/
def Settled (c : Container) (x : String) (s : Signature) (promoted : Bool) : Prop :=
  if promoted then ∃ d, c.find? ⟨.classOrTrait, x⟩ = some d ∧ d.Constructs s
  else ∃ d, c.find? ⟨.object, x⟩ = some d ∧
    .comment (placeholderText (.constructorMember s)) ∈ d.members

theorem Constructs.grows (constructs : c.Constructs s) (grows : c.Grows d) : d.Constructs s := by
  obtain ⟨⟨info, head, trait⟩, constructor⟩ := constructs
  obtain ⟨new, head', grown⟩ := (head ▸ grows.head).exists_class
  refine ⟨⟨new, head', ?_⟩, fun general => ?_⟩
  · rcases grown.isTrait with same | ⟨_, cleared⟩
    · exact same.trans trait
    · exact cleared
  · obtain ⟨m, member, overload⟩ := constructor general
    exact ⟨m, grows.members.mem rfl member, overload⟩

theorem Settled.grows {promoted : Bool} (settled : c.Settled x s promoted) (left : c.Sound)
    (right : d.Sound) (grows : c.Grows d) : d.Settled x s promoted := by
  unfold Settled at settled ⊢
  split at settled
  · next yes =>
    obtain ⟨e, found, constructs⟩ := settled
    obtain ⟨e', found', grown⟩ :=
      grows.find? left.coherent.toIndexed right.coherent.toIndexed found
    rw [if_pos yes]
    exact ⟨e', found', constructs.grows grown⟩
  · next no =>
    obtain ⟨e, found, member⟩ := settled
    obtain ⟨e', found', grown⟩ :=
      grows.find? left.coherent.toIndexed right.coherent.toIndexed found
    rw [if_neg no]
    exact ⟨e', found', grown.members.mem rfl member⟩

theorem Indexed.exists_method_enter (indexed : c.Indexed) (m : Method) :
    ∃ n, .method n ∈ (c.enter (.method m)).container.members ∧ n.overload = m.overload := by
  rw [enter_method]
  split
  · next taken => exact indexed.mem_overloads.mp (List.contains_iff_mem.mp taken)
  · exact ⟨m, List.mem_append.mpr (.inr (.head _)), rfl⟩

theorem Sound.constructs_enter (sound : c.Sound) {info : ClassHead}
    (head : c.head = .classOrTrait info) (trait : info.isTrait = false) (s : Signature) :
    (c.enter s.constructorEntry).container.Constructs s where
  isClass := ⟨info, (head_enter c _).trans head, trait⟩
  constructor general := by
    have kept : s.constructorEntry = .method _ := if_neg (Bool.eq_false_iff.mp general)
    rw [kept]
    exact sound.coherent.exists_method_enter _

/-- The class of a constructor is made if need be, and it is no trait from then on. -/
theorem Sound.settled_constructor (sound : c.Sound) {owner : Container}
    (found : c.find? ⟨.object, x⟩ = some owner) (s : Signature) :
    (c.walkBody ⟨[], [⟨.object, x⟩]⟩ [.constructorMember s]).container.Settled x s
      (s.result.any (·.same (c.companionReference x))) := by
  have key := sound.coherent.key_of_find? found
  have head : owner.head = .object x := Head.key_eq_object.mp key
  have step := Walk.constructor_object (Walk.current_begun c ⟨.object, x⟩) found head rfl s
  change (Walk.constructor { tree := c } ⟨[], [⟨.object, x⟩]⟩ s).tree.Settled x s _
  rw [step]
  dsimp only
  unfold Settled
  split
  · obtain ⟨d, opened, key⟩ := sound.coherent.exists_find?_ensure ⟨.classOrTrait, x⟩
    obtain ⟨info, class₀, _⟩ := Head.key_eq_classOrTrait.mp key
    have there : (c.openClass x).find? ⟨.classOrTrait, x⟩ = some (d.setTrait false) :=
      find?_modify_self opened
    have inner := ((evolves_openClass c x).sound sound).find? there
    have cleared : (d.setTrait false).head = .classOrTrait { info with isTrait := false } := by
      rw [setTrait, modifyClass, class₀]
    rw [Walk.promote_nil, Walk.enterAt_key there]
    exact ⟨_, find?_replace_self there, inner.constructs_enter cleared rfl s⟩
  · rw [Walk.enterAt_key found]
    exact ⟨_, find?_replace_self found, List.mem_append.mpr (.inr (.head _))⟩

/-- Nothing else in the body matters to a constructor, neither before nor after it. -/
theorem Sound.settled_walkBody (sound : c.Sound) (package : c.isPackage = true)
    {owner : Container} (found : c.find? ⟨.object, x⟩ = some owner) {members : List Node}
    (member : .constructorMember s ∈ members) :
    (c.walkBody ⟨[], [⟨.object, x⟩]⟩ members).container.Settled x s
      (s.result.any (·.same (c.companionReference x))) := by
  obtain ⟨before, after, rfl⟩ := List.append_of_mem member
  have first := evolves_walkBody c ⟨[], [⟨.object, x⟩]⟩ before
  have sound₁ := first.sound sound
  obtain ⟨_, kept⟩ := first.find? sound found
  have settled := sound₁.settled_constructor kept s
  have second := evolves_walkBody (c.walkBody ⟨[], [⟨.object, x⟩]⟩ before).container
    ⟨[], [⟨.object, x⟩]⟩ [.constructorMember s]
  have sound₂ := second.sound sound₁
  have third := develops_walkBody ((first.trans second).isPackage.trans package) ⟨.object, x⟩ after
  have rest := sound₁.walkBody_append ⟨.object, x⟩ [.constructorMember s] after
  rw [List.singleton_append] at rest
  -- The members before it leave the type parameters, and with them the reference, as they are.
  rw [(sound.sameParams_walkBody _ before).companionReference] at settled
  simp only [sound.walkBody_append, rest]
  exact settled.grows sound₂ (third.evolves.sound sound₂) (third.grows sound₂)

theorem Sound.settled_fill (sound : c.Sound) (package : c.isPackage = true)
    {members : List Node} (member : .constructorMember s ∈ members) :
    (c.fill ⟨.object, x⟩ members).container.Settled x s
      (s.result.any (·.same (c.companionReference x))) := by
  obtain ⟨_, found, _⟩ := sound.coherent.exists_find?_ensure ⟨.object, x⟩
  have opened := evolves_ensure c ⟨.object, x⟩
  have settled :=
    (opened.sound sound).settled_walkBody (opened.isPackage.trans package) found member
  rwa [(sound.coherent.sameParams_ensure _).companionReference] at settled

theorem Sound.settled_declareAll (sound : c.Sound) (package : c.isPackage = true)
    {members : List Node} (member : .constructorMember s ∈ members) (before after : List Node) :
    (c.declareAll (before ++ .varDecl x (some (.objectType members)) :: after)).container.Settled
      x s (s.result.any (·.same ((c.declareAll before).container.companionReference x))) := by
  have first := evolves_declareAll c before
  have sound₁ := first.sound sound
  have package₁ := first.isPackage.trans package
  have settled := sound₁.settled_fill (x := x) package₁ member
  have second := evolves_fill (c.declareAll before).container ⟨.object, x⟩ members
  have sound₂ := second.sound sound₁
  have third := develops_declareAll sound₂ (second.isPackage.trans package₁) after
  simp only [declareAll_append sound package, declareAll_cons sound₁ package₁]
  exact settled.grows sound₂ (third.evolves.sound sound₂) (third.grows sound₂)

/-! ## The class of the pieces -/

/-- One piece is enough to make the class. -/
theorem Sound.exists_class_declareAll (sound : c.Sound) (package : c.isPackage = true)
    {nodes : List Node} (declared : pieces x nodes ≠ []) :
    ∃ d info, (c.declareAll nodes).container.find? ⟨.classOrTrait, x⟩ = some d ∧
      d.head = .classOrTrait info := by
  obtain ⟨typeParams, there⟩ := List.exists_mem_of_ne_nil _ declared
  obtain ⟨node, member, piece⟩ := List.mem_filterMap.mp there
  have opened : node.opened? = some ⟨.classOrTrait, x⟩ := by
    obtain ⟨name, parents, members, rfl, rfl⟩ := Ambient.Node.eq_interfaceDecl piece
    rfl
  obtain ⟨d, found⟩ :=
    sound.exists_find?_declareAll package (List.mem_filterMap.mpr ⟨node, member, opened⟩)
  have done := (evolves_declareAll c nodes).sound sound
  obtain ⟨info, head, _⟩ := Head.key_eq_classOrTrait.mp (done.coherent.key_of_find? found)
  exact ⟨d, info, found, head⟩

end Container

/-- Lists that are all the same make up that list alone only if there is one of them. -/
theorem flatten_eq_iff_of_forall_eq {α : Type} {lists : List (List α)} {items : List α}
    (same : ∀ list ∈ lists, list = items) :
    lists.flatten = items ↔ lists.length = 1 ∨ items = [] := by
  obtain ⟨n, rfl⟩ : ∃ n, lists = List.replicate n items :=
    ⟨lists.length, List.eq_replicate_iff.mpr ⟨rfl, same⟩⟩
  rw [List.length_replicate]
  constructor
  · intro whole
    have length : n * items.length = 1 * items.length := by
      simpa using congrArg List.length whole
    rcases Nat.eq_zero_or_pos items.length with none | more
    · exact .inr (List.length_eq_zero_iff.mp none)
    · exact .inl (Nat.eq_of_mul_eq_mul_right more length)
  · rintro (rfl | rfl) <;> simp

namespace Container

variable {c : Container} {x : String} {s : Signature}

/-! ## A package that starts empty -/

theorem Sound.paramsAt_pieces (sound : c.Sound) (package : c.isPackage = true)
    (empty : ∀ k, c.find? k = none) (nodes : List Node) :
    (c.declareAll nodes).container.paramsAt [⟨.classOrTrait, x⟩] =
      (pieces x nodes).flatten.map .ofAmbient := by
  rw [sound.paramsAt_declareAll package, paramsAt_key, empty]
  rfl

theorem Sound.class_pieces (sound : c.Sound) (package : c.isPackage = true)
    (empty : ∀ k, c.find? k = none) {nodes : List Node} (declared : pieces x nodes ≠ []) :
    ∃ d info, (c.declareAll nodes).container.find? ⟨.classOrTrait, x⟩ = some d ∧
      d.head = .classOrTrait info ∧
      info.typeParams = (pieces x nodes).flatten.map .ofAmbient := by
  obtain ⟨d, info, found, head⟩ := sound.exists_class_declareAll package declared
  have params := sound.paramsAt_pieces package empty nodes (x := x)
  rw [paramsAt_key, found, Option.map_some, Option.getD_some, head] at params
  exact ⟨d, info, found, head, params⟩

theorem companionReference_of_paramsAt {typeParams : List Ambient.TypeParam}
    (same : c.paramsAt [⟨.classOrTrait, x⟩] = typeParams.map .ofAmbient) :
    c.companionReference x =
      .named x ((typeParams.map (·.name.text)).map (.named · [])) := by
  rw [companionReference_eq, same, List.map_map, List.map_map]
  rfl

/-- In a package that starts empty, a class is no trait exactly if some constructor names it with
the type parameters of all pieces before its declaration. -/
theorem Sound.concrete_pieces (sound : c.Sound) (package : c.isPackage = true)
    (empty : ∀ k, c.find? k = none) (nodes : List Node) :
    (c.declareAll nodes).container.Concrete x ↔ ∃ before members after s,
      nodes = before ++ .varDecl x (some (.objectType members)) :: after ∧
      .constructorMember s ∈ members ∧ s.result =
        some (.named x (((pieces x before).flatten.map (·.name.text)).map (.named · []))) := by
  have reference (before : List Node) := companionReference_of_paramsAt
    (sound.paramsAt_pieces package empty before (x := x))
  rw [sound.concrete_declareAll package, or_iff_right (not_concrete_of_absent (empty _))]
  constructor
  · rintro ⟨before, _, after, split, members, s, rfl, member, fits⟩
    exact ⟨before, members, after, s, split, member, reference before ▸ fits⟩
  · rintro ⟨before, members, after, s, split, member, fits⟩
    exact ⟨before, _, after, split, members, s, rfl, member, (reference before).symm ▸ fits⟩

theorem Sound.settled_pieces (sound : c.Sound) (package : c.isPackage = true)
    (empty : ∀ k, c.find? k = none) {members : List Node} (member : .constructorMember s ∈ members)
    {args : List String} (result : s.result = some (.named x (args.map (.named · []))))
    (before after : List Node) :
    (c.declareAll (before ++ .varDecl x (some (.objectType members)) :: after)).container.Settled
      x s (args == (pieces x before).flatten.map (·.name.text)) := by
  have settled := sound.settled_declareAll (x := x) package member before after
  rw [companionReference_of_paramsAt (sound.paramsAt_pieces package empty before), result]
    at settled
  simpa only [Option.any_some, Ambient.Node.same_named, beq_self_eq_true, Bool.true_and,
    Ambient.Node.sameItems_named] using settled

end Container

/-- In any namespace, an interface has the type parameters of all its pieces: a list that every
piece carries is there once only if there is a single piece, or if it is empty. A constructor in
the body of an object of that name goes to the class if its result is the name applied to the type
parameters of all earlier pieces, and is left as a placeholder otherwise. The class is no trait
exactly if there is a constructor that went to it. -/
theorem importTree_pieces (names : List String) (x : String) (declarations : List Node)
    (declared : pieces x (declaredIn names declarations) ≠ []) :
    let root := (importTree declarations).container
    let here := declaredIn names declarations
    (importTree declarations).fault = none ∧
    ∃ d info, root.get? (names.map (Key.mk .package) ++ [⟨.classOrTrait, x⟩]) = some d ∧
      d.head = .classOrTrait info ∧
      info.typeParams = (pieces x here).flatten.map .ofAmbient ∧
      (∀ typeParams, (∀ piece ∈ pieces x here, piece.map .ofAmbient = typeParams) →
        (info.typeParams = typeParams ↔ (pieces x here).length = 1 ∨ typeParams = [])) ∧
      (∀ before members after s args,
        here = before ++ .varDecl x (some (.objectType members)) :: after →
        .constructorMember s ∈ members →
        s.result = some (.named x (args.map (.named · []))) →
        (root.packageAt names).Settled x s
          (args == (pieces x before).flatten.map (·.name.text))) ∧
      (info.isTrait = false ↔ ∃ before members after s,
        here = before ++ .varDecl x (some (.objectType members)) :: after ∧
        .constructorMember s ∈ members ∧ s.result =
          some (.named x (((pieces x before).flatten.map (·.name.text)).map (.named · [])))) := by
  intro root here
  have sound := Container.sound_root.of_packageAt names
  have package := Container.sound_root.isPackage_packageAt rfl names
  have empty := fun k => Container.find?_packageAt_fresh ⟨.package, ""⟩ k names
  have built : root.packageAt names =
      ((Container.root.packageAt names).declareAll here).container :=
    Container.sound_root.packageAt_declareAll rfl names declarations
  obtain ⟨d, info, found, head, typeParams⟩ := sound.class_pieces package empty declared
  refine ⟨fault_importTree declarations, d, info, ?_, head, typeParams, ?_, ?_, ?_⟩
  · rw [Container.get?_packageAt, built, found]
  · intro each same
    have lists : ∀ list ∈ (pieces x here).map (List.map TypeParam.ofAmbient), list = each := by
      intro list member
      obtain ⟨piece, there, rfl⟩ := List.mem_map.mp member
      exact same piece there
    rw [typeParams, List.map_flatten, flatten_eq_iff_of_forall_eq lists, List.length_map]
  · intro before members after s args split member result
    rw [built, split]
    exact sound.settled_pieces package empty member result before after
  · have concrete := sound.concrete_pieces package empty here (x := x)
    rw [Container.concrete_of_find? found, head] at concrete
    exact concrete

/-- A namespace that is opened twice, with a piece in each body. The constructor that repeats the
two lists is promoted, and the one that has the list once is not. -/
theorem importTree_pieces_reopened :
    let piece : Node := .interfaceDecl (.plain "A") [⟨.plain "T", none⟩] [] []
    let once : Signature := ⟨[], [], some (.named "A" [.named "T" []])⟩
    let twice : Signature := ⟨[], [], some (.named "A" [.named "T" [], .named "T" []])⟩
    let object : Node :=
      .varDecl "A" (some (.objectType [.constructorMember once, .constructorMember twice]))
    let declarations : List Node :=
      [.moduleDecl "js" [piece], .varDecl "x" none, .moduleDecl "js" [piece, object]]
    let root := (importTree declarations).container
    pieces "A" (declaredIn ["js"] declarations) ≠ [] ∧
      (∃ d info, root.get? [⟨.package, "js"⟩, ⟨.classOrTrait, "A"⟩] = some d ∧
        d.head = .classOrTrait info ∧ info.typeParams = [{ name := "T" }, { name := "T" }] ∧
        info.isTrait = false) ∧
      (root.packageAt ["js"]).Settled "A" once false ∧
      (root.packageAt ["js"]).Settled "A" twice true := by
  intro piece once twice object declarations root
  have declared : pieces "A" (declaredIn ["js"] declarations) ≠ [] := List.cons_ne_nil _ _
  obtain ⟨_, d, info, found, head, typeParams, _, settled, concrete⟩ :=
    importTree_pieces ["js"] "A" declarations declared
  refine ⟨declared, ⟨d, info, found, head, typeParams, ?_⟩, ?_, ?_⟩
  · exact concrete.mpr ⟨[piece, piece], _, [], twice, rfl, .tail _ (.head _), rfl⟩
  · exact settled [piece, piece] _ [] once ["T"] rfl (.head _) rfl
  · exact settled [piece, piece] _ [] twice ["T", "T"] rfl (.tail _ (.head _)) rfl

/-- Two pieces with one type parameter leave a class with two of that name. The constructor of
the object has the parameter once, and so the class stays a trait without a constructor. -/
theorem typeParams_repeated :
    let piece : Node := .interfaceDecl (.plain "A") [⟨.plain "T", none⟩] [] []
    let made : Node := .constructorMember ⟨[], [], some (.named "A" [.named "T" []])⟩
    let root := (importTree [piece, piece, .varDecl "A" (some (.objectType [made]))]).container
    ∃ d, root.find? ⟨.classOrTrait, "A"⟩ = some d ∧
      d.head = .classOrTrait { name := "A", typeParams := [{ name := "T" }, { name := "T" }] } ∧
      d.members = [] :=
  ⟨_, rfl, rfl, rfl⟩

end Facade
