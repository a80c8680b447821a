import Facade.Proofs.Coherence
import Facade.Proofs.Parameters

/-! A body may be split. Two declarations of one name whose bodies follow one another leave the
same tree and the same notes as one declaration with both bodies. Each walk refers to the
companion class anew, but no body changes the type parameters which the reference is made of. -/
namespace Facade
open Ambient (Node Signature TypeName)

namespace Walk

variable {w : Walk} {k : Key}

theorem enterAt_eq (w : Walk) (path : Path) (entries : List Entry) :
    w.enterAt path entries =
      let alone := Walk.enterAt { tree := w.tree } path entries
      ⟨alone.tree, w.notes ++ alone.notes, w.companion⟩ := by
  simp only [enterAt]
  cases w.tree.get? path with
  | none => simp only [List.append_nil]
  | some owner => simp only [List.nil_append]

theorem promote_eq (w : Walk) (enclosing : Path) (name : String) (signature : Signature) :
    w.promote enclosing name signature =
      let alone := Walk.promote { tree := w.tree } enclosing name signature
      ⟨alone.tree, w.notes ++ alone.notes, w.companion⟩ := by
  simp only [promote]
  rw [enterAt_eq]

/-- A reference made earlier is the one that would be made now. -/
def Current (w : Walk) (k : Key) : Prop :=
  ∀ reference, w.companion = some reference → reference = w.tree.companionReference k.name

theorem current_begun (tree : Container) (k : Key) : Walk.Current { tree } k := nofun

theorem Current.getD_companion (current : w.Current k) :
    w.companion.getD (w.tree.companionReference k.name) = w.tree.companionReference k.name := by
  cases made : w.companion with
  | none => rfl
  | some reference => exact current reference made

theorem Current.or_companion (current : w.Current k) :
    w.companion.or (some (w.tree.companionReference k.name)) =
      some (w.tree.companionReference k.name) := by
  cases made : w.companion with
  | none => rfl
  | some reference => exact congrArg some (current reference made)

/-- What a step makes of a tree does not depend on what was noted before, nor on whether the
reference to the companion is at hand. -/
structure Uniform (tree : Container) (k : Key) (step : Walk → Walk) : Prop where
  eq : ∀ w : Walk, w.tree = tree → w.Current k →
    step w = ⟨(step { tree }).tree, w.notes ++ (step { tree }).notes,
      w.companion.or (step { tree }).companion⟩
  made : ∀ reference, (step { tree }).companion = some reference →
    reference = tree.companionReference k.name

theorem uniform_enterAt (tree : Container) (k : Key) (path : Path) (entries : List Entry) :
    Uniform tree k (·.enterAt path entries) := by
  have none : (Walk.enterAt { tree } path entries).companion = none := by rw [enterAt_eq]
  constructor
  · rintro w rfl _
    rw [none, Option.or_none]
    exact enterAt_eq w path entries
  · intro reference made
    rw [none] at made
    contradiction

/-- With a companion to refer to, the result of the constructor decides. -/
theorem constructor_object {owner : Container} {name : String} (current : w.Current k)
    (found : w.tree.find? k = some owner) (head : owner.head = .object name)
    (own : name = k.name) (signature : Signature) :
    w.constructor ⟨[], [k]⟩ signature =
      let reference := w.tree.companionReference k.name
      let kept := { w with companion := some reference }
      if signature.result.any (·.same reference) then kept.promote [] k.name signature
      else kept.enterAt [k] [.placeholder (.constructorMember signature)] := by
  subst own
  have enclosing : w.tree.get? [] = some w.tree := rfl
  have here : w.tree.get? [k] = some owner := (Container.get?_key w.tree k).trans found
  simp only [constructor, enclosing, here, Option.map_some, head, current.getD_companion]

theorem constructor_elsewhere
    (elsewhere : ∀ owner name, w.tree.find? k = some owner → owner.head ≠ .object name)
    (signature : Signature) :
    w.constructor ⟨[], [k]⟩ signature =
      w.enterAt [k] [.placeholder (.constructorMember signature)] := by
  unfold constructor
  split
  · next name _ here =>
    obtain ⟨owner, found, head⟩ := Option.map_eq_some_iff.mp here
    exact absurd head (elsewhere owner name ((Container.get?_key w.tree k).symm.trans found))
  · rfl

theorem uniform_constructor {tree : Container} (sound : tree.Sound) (k : Key)
    (signature : Signature) : Uniform tree k (·.constructor ⟨[], [k]⟩ signature) := by
  by_cases object : ∃ owner name, tree.find? k = some owner ∧ owner.head = .object name
  · obtain ⟨owner, name, found, head⟩ := object
    have own : name = k.name := by
      rw [← sound.coherent.key_of_find? found, Container.key, head]
      rfl
    have begun := constructor_object (current_begun tree k) found head own signature
    constructor
    · rintro w rfl current
      have step := constructor_object current found head own signature
      dsimp only at step begun ⊢
      rw [step, begun]
      split
      · rw [promote_eq, promote_eq { tree := w.tree, companion := some _ }]
        simp only [List.nil_append, current.or_companion]
      · rw [enterAt_eq, enterAt_eq { tree := w.tree, companion := some _ }]
        simp only [List.nil_append, current.or_companion]
    · intro reference made
      dsimp only at begun made
      rw [begun] at made
      split at made
      · rw [promote_eq] at made
        exact (Option.some.inj made).symm
      · rw [enterAt_eq] at made
        exact (Option.some.inj made).symm
  · -- Without an object there is no companion, and the reference is never made.
    have elsewhere : ∀ owner name, tree.find? k = some owner → owner.head ≠ .object name :=
      fun owner name found head => object ⟨owner, name, found, head⟩
    obtain ⟨eq, made⟩ := uniform_enterAt tree k [k] [.placeholder (.constructorMember signature)]
    have begun := constructor_elsewhere (w := { tree }) elsewhere signature
    constructor
    · rintro w rfl current
      have step := constructor_elsewhere elsewhere signature
      rw [step, begun]
      exact eq w rfl current
    · rwa [begun]

theorem uniform_member {tree : Container} (sound : tree.Sound) (k : Key) (node : Node) :
    Uniform tree k (·.member ⟨[], [k]⟩ node) := by
  cases node with
  | constructorMember signature => exact uniform_constructor sound k signature
  | _ => exact uniform_enterAt tree k [k] _

/-- A member does to the tree what it does in a walk of its own. -/
theorem member_eq (sound : w.tree.Sound) (current : w.Current k) (node : Node) :
    let alone := Walk.member { tree := w.tree } ⟨[], [k]⟩ node
    (w.member ⟨[], [k]⟩ node).tree = alone.tree ∧
      (w.member ⟨[], [k]⟩ node).notes = w.notes ++ alone.notes := by
  have step := (uniform_member sound k node).eq w rfl current
  dsimp only at step ⊢
  rw [step]
  exact ⟨rfl, rfl⟩

theorem current_member (sound : w.tree.Sound) (current : w.Current k) (node : Node) :
    (w.member ⟨[], [k]⟩ node).Current k := by
  obtain ⟨eq, made⟩ := uniform_member sound k node
  have same := sameParams_member w sound ⟨[], [k]⟩ node
  have companion := congrArg Walk.companion (eq w rfl current)
  intro reference kept
  rw [same.companionReference]
  cases first : w.companion with
  | some earlier =>
    rw [first] at companion
    obtain rfl := Option.some.inj (companion.symm.trans kept)
    exact current _ first
  | none =>
    rw [first, Option.none_or] at companion
    exact made reference (companion.symm.trans kept)

theorem current_members (sound : w.tree.Sound) (current : w.Current k) (nodes : List Node) :
    (w.members ⟨[], [k]⟩ nodes).Current k := by
  induction nodes generalizing w with
  | nil => exact current
  | cons node nodes ih =>
    exact ih ((evolves_member w _ node).sound sound) (current_member sound current node)

/-- A walk goes on as one that begins with the tree as it is. -/
theorem members_eq (sound : w.tree.Sound) (current : w.Current k) (nodes : List Node) :
    let alone := w.tree.walkBody ⟨[], [k]⟩ nodes
    (w.members ⟨[], [k]⟩ nodes).tree = alone.container ∧
      (w.members ⟨[], [k]⟩ nodes).notes = w.notes ++ alone.notes := by
  induction nodes generalizing w with
  | nil => exact ⟨rfl, (List.append_nil _).symm⟩
  | cons node nodes ih =>
    obtain ⟨tree, notes⟩ := member_eq sound current node
    have begun := current_begun w.tree k
    have rest := ih ((evolves_member w ⟨[], [k]⟩ node).sound sound)
      (current_member sound current node)
    have rest' := ih ((evolves_member { tree := w.tree } ⟨[], [k]⟩ node).sound sound)
      (current_member (w := { tree := w.tree }) sound begun node)
    simp only [tree, notes] at rest
    refine ⟨rest.1.trans rest'.1.symm, rest.2.trans ?_⟩
    rw [List.append_assoc]
    exact congrArg (w.notes ++ ·) rest'.2.symm

end Walk

namespace Container

variable {c d new old : Container} {k : Key} {x : String}

/-- One walk over two bodies is a walk over the first and another one over the second. -/
theorem Sound.walkBody_append (sound : c.Sound) (k : Key) (first second : List Node) :
    c.walkBody ⟨[], [k]⟩ (first ++ second) =
      let before := c.walkBody ⟨[], [k]⟩ first
      let after := before.container.walkBody ⟨[], [k]⟩ second
      ⟨after.container, before.notes ++ after.notes⟩ := by
  -- A reference made in the first body is the one which the second walk would make.
  have between := Walk.current_members sound (Walk.current_begun c k) first
  have continued := Walk.members_eq
    ((Walk.evolves_members { tree := c } ⟨[], [k]⟩ first).sound sound) between second
  unfold walkBody Walk.members
  rw [List.foldl_append]
  exact congr (congrArg Edit.mk continued.1) continued.2

theorem Sound.fill_append (sound : c.Sound) (k : Key) (first second : List Node) :
    c.fill k (first ++ second) =
      let before := c.fill k first
      let after := before.container.fill k second
      ⟨after.container, before.notes ++ after.notes⟩ := by
  obtain ⟨owner, found, _⟩ := sound.coherent.exists_find?_ensure k
  have opened := (evolves_ensure c k).sound sound
  obtain ⟨owner', found'⟩ :=
    (evolves_walkBody (c.ensure k) ⟨[], [k]⟩ first).find? opened found
  simp only [fill, opened.walkBody_append, ensure_of_find? found']

/-! ## Interfaces -/

theorem enterAll_append (c : Container) (first second : List Entry) :
    c.enterAll (first ++ second) =
      let before := c.enterAll first
      let after := before.container.enterAll second
      ⟨after.container, before.notes ++ after.notes⟩ := by
  induction first generalizing c with
  | nil => rfl
  | cons entry first ih => simp only [List.cons_append, enterAll, ih, List.append_assoc]

/-- Everything in the body of a class or trait stays with it. -/
theorem Sound.walkBody_class (sound : c.Sound) (found : c.find? ⟨.classOrTrait, x⟩ = some d)
    (members : List Node) :
    c.walkBody ⟨[], [⟨.classOrTrait, x⟩]⟩ members =
      let filled := d.enterAll (members.flatMap (·.entries))
      ⟨c.replace ⟨.classOrTrait, x⟩ filled.container, filled.notes⟩ := by
  induction members generalizing c d with
  | nil =>
    have same : c.replace ⟨.classOrTrait, x⟩ d = c := replace_self found
    exact congrArg (Edit.mk · []) same.symm
  | cons node members ih =>
    have entered : Walk.member { tree := c } ⟨[], [⟨.classOrTrait, x⟩]⟩ node =
        Walk.enterAt { tree := c } [⟨.classOrTrait, x⟩] node.entries := by
      cases node with
      | constructorMember signature =>
        apply Walk.constructor_elsewhere
        intro owner name there head
        have key := sound.coherent.key_of_find? there
        obtain ⟨info, same, _⟩ := Head.key_eq_classOrTrait.mp key
        rw [same] at head
        contradiction
      | _ => rfl
    have first : c.walkBody ⟨[], [⟨.classOrTrait, x⟩]⟩ [node] =
        ⟨c.replace ⟨.classOrTrait, x⟩ (d.enterAll node.entries).container,
          (d.enterAll node.entries).notes⟩ := by
      unfold walkBody Walk.members
      rw [List.foldl_cons, List.foldl_nil, entered, Walk.enterAt_key found, List.nil_append]
    have evolves := evolves_enterAll d node.entries
    have rest := ih ((evolves_replace found evolves).sound sound) (find?_replace_self found)
    have split := sound.walkBody_append ⟨.classOrTrait, x⟩ [node] members
    rw [List.singleton_append] at split
    simp only [split, first, rest, List.flatMap_cons, enterAll_append, replace_replace_self]

end Container

def Head.modifyClass (f : ClassHead → ClassHead) : Head → Head
  | .classOrTrait info => .classOrTrait (f info)
  | other => other

/-- The head of a class as an interface extends it. -/
def ClassHead.extend (typeParams : List TypeParam) (parents : List HostType) (info : ClassHead) :
    ClassHead :=
  { info.addParents parents with typeParams := info.typeParams ++ typeParams }

theorem ClassHead.addParents_append (info : ClassHead) (first second : List HostType) :
    info.addParents (first ++ second) = (info.addParents first).addParents second := by
  induction first generalizing info with
  | nil => rfl
  | cons type first ih =>
    simp only [List.cons_append, addParents]
    split <;> exact ih _

theorem ClassHead.addParents_withTypeParams (info : ClassHead) (typeParams : List TypeParam)
    (parents : List HostType) :
    ({ info with typeParams } : ClassHead).addParents parents =
      { info.addParents parents with typeParams } := by
  induction parents generalizing info with
  | nil => rfl
  | cons type parents ih =>
    simp only [addParents]
    split
    · exact ih info
    · exact ih { info with parents := info.parents ++ [type] }

theorem ClassHead.extend_extend (info : ClassHead) (first second : List TypeParam)
    (parents later : List HostType) :
    (info.extend first parents).extend second later =
      info.extend (first ++ second) (parents ++ later) := by
  simp only [extend, addParents_withTypeParams, addParents_append, List.append_assoc]

namespace Container

variable {c d : Container} {k : Key} {x : String}

theorem modifyClass_eq (f : ClassHead → ClassHead) (c : Container) :
    modifyClass f c = { c with head := c.head.modifyClass f } := by
  obtain ⟨head, members, index, companion⟩ := c
  cases head <;> rfl

theorem extended_eq (c : Container) (typeParams : List TypeParam) (parents : List HostType) :
    (c.addParents parents).addTypeParams typeParams =
      modifyClass (·.extend typeParams parents) c := by
  simp only [addTypeParams, addParents, modifyClass_eq]
  cases c.head with
  | package name | object name => rfl
  | classOrTrait info =>
    simp only [Head.modifyClass, ClassHead.extend, ClassHead.typeParams_addParents]

theorem title_modifyClass (c : Container) {f : ClassHead → ClassHead}
    (name : ∀ info, (f info).name = info.name) (trait : ∀ info, (f info).isTrait = info.isTrait) :
    (modifyClass f c).title = c.title := by
  simp only [title, modifyClass_eq]
  cases c.head with
  | package name | object name => rfl
  | classOrTrait info => simp only [Head.modifyClass, Head.title, name, trait]

/-- What comes in does not depend on parents or type parameters. -/
theorem enter_modifyClass (c : Container) {f : ClassHead → ClassHead}
    (name : ∀ info, (f info).name = info.name) (trait : ∀ info, (f info).isTrait = info.isTrait)
    (entry : Entry) :
    (modifyClass f c).enter entry =
      ⟨modifyClass f (c.enter entry).container, (c.enter entry).notes⟩ := by
  have title := title_modifyClass c name trait
  cases entry with
  | field y type =>
    have same : (modifyClass f c).hasField y = c.hasField y := by rw [modifyClass_eq]; rfl
    rw [enter_field, enter_field, same, title]
    split
    · rfl
    · simp only [modifyClass_eq]
      rfl
  | method m =>
    have same : (modifyClass f c).hasOverload m.overload = c.hasOverload m.overload := by
      rw [modifyClass_eq]
      rfl
    rw [enter_method, enter_method, same, title]
    split
    · rfl
    · simp only [modifyClass_eq]
      rfl
  | specialized y => simp only [enter, title]
  | placeholder node =>
    simp only [enter, title]
    simp only [modifyClass_eq]
    rfl

theorem enterAll_modifyClass (c : Container) {f : ClassHead → ClassHead}
    (name : ∀ info, (f info).name = info.name) (trait : ∀ info, (f info).isTrait = info.isTrait)
    (entries : List Entry) :
    (modifyClass f c).enterAll entries =
      ⟨modifyClass f (c.enterAll entries).container, (c.enterAll entries).notes⟩ := by
  induction entries generalizing c with
  | nil => rfl
  | cons entry entries ih => simp only [enterAll, enter_modifyClass c name trait, ih]

theorem modifyClass_modifyClass (f g : ClassHead → ClassHead) (c : Container) :
    modifyClass g (modifyClass f c) = modifyClass (fun info => g (f info)) c := by
  simp only [modifyClass_eq]
  cases c.head <;> rfl

/-- An interface extends the head of its class, and then its members come in. -/
theorem Sound.declareInterface_class (sound : c.Sound)
    (found : (c.ensure ⟨.classOrTrait, x⟩).find? ⟨.classOrTrait, x⟩ = some d)
    (typeParams : List TypeParam) (parents : List HostType) (members : List Node) :
    c.declareInterface x typeParams parents members =
      let filled :=
        (modifyClass (·.extend typeParams parents) d).enterAll (members.flatMap (·.entries))
      ⟨(c.ensure ⟨.classOrTrait, x⟩).replace ⟨.classOrTrait, x⟩ filled.container,
        filled.notes⟩ := by
  have extended : c.extendClass x typeParams parents =
      (c.ensure ⟨.classOrTrait, x⟩).replace ⟨.classOrTrait, x⟩
        (modifyClass (·.extend typeParams parents) d) := by
    rw [extendClass, modify_of_find? found, extended_eq]
  have soundExtended := (evolves_extendClass c x typeParams parents).sound sound
  rw [extended] at soundExtended
  rw [declareInterface_eq, extended, soundExtended.walkBody_class (find?_replace_self found)]
  simp only [replace_replace_self]

/-- What the second piece adds to the head could as well have been there before the members of
the first one came in. -/
theorem Sound.declareInterface_append (sound : c.Sound) (x : String)
    (typeParams more : List TypeParam) (parents later : List HostType)
    (first second : List Node) :
    c.declareInterface x (typeParams ++ more) (parents ++ later) (first ++ second) =
      let before := c.declareInterface x typeParams parents first
      let after := before.container.declareInterface x more later second
      ⟨after.container, before.notes ++ after.notes⟩ := by
  obtain ⟨d, found, _⟩ := sound.coherent.exists_find?_ensure ⟨.classOrTrait, x⟩
  have once := sound.declareInterface_class found typeParams parents first
  have grown := (evolves_declareInterface c x typeParams parents first).sound sound
  have whole := sound.declareInterface_class found (typeParams ++ more) (parents ++ later)
    (first ++ second)
  rw [once] at grown
  have here : ((c.ensure ⟨.classOrTrait, x⟩).replace ⟨.classOrTrait, x⟩
      ((modifyClass (·.extend typeParams parents) d).enterAll
        (first.flatMap (·.entries))).container).find? ⟨.classOrTrait, x⟩ = some _ :=
    find?_replace_self found
  have there := ensure_of_find? here
  have twice := grown.declareInterface_class (by rw [there]; exact here) more later second
  -- The members of the first piece come in alike before and after the head is extended again.
  have commuted := enterAll_modifyClass (modifyClass (·.extend typeParams parents) d)
    (f := (·.extend more later)) (fun info => info.name_addParents later)
    (fun info => info.isTrait_addParents later) (first.flatMap (·.entries))
  simp only [modifyClass_modifyClass, ClassHead.extend_extend] at commuted
  simp only [whole, once, twice, there, List.flatMap_append, enterAll_append, commuted,
    replace_replace_self]

/-! ## Declarations at a place in a tree -/

/-- Two declarations, made one after the other at a place, come to the same as a third one. -/
def Joins (tree : Container) (place : Path) (first second joined : Node) : Prop :=
  ∃ before after whole,
    tree.step? place (.change (.declare first)) = some before ∧
    before.container.step? place (.change (.declare second)) = some after ∧
    tree.step? place (.change (.declare joined)) = some whole ∧
    before.fault = none ∧ after.fault = none ∧ whole.fault = none ∧
    after.container = whole.container ∧ before.notes ++ after.notes = whole.notes

theorem Sound.joins {tree : Container} (sound : tree.Sound) {place : Path}
    (found : tree.get? place = some c) (package : c.isPackage = true) {first second joined : Node}
    (same : (c.declare joined).toEdit =
      let before := c.declare first
      let after := before.container.declare second
      ⟨after.container, before.notes ++ after.notes⟩) :
    tree.Joins place first second joined := by
  have inner := sound.of_get? found
  have evolves := evolves_declare c first
  refine ⟨_, _, _, step?_declare found first, step?_declare (get?_put_self found) second,
    step?_declare found joined, fault_declare inner package first,
    fault_declare (evolves.sound inner) (evolves.isPackage.trans package) second,
    fault_declare inner package joined, ?_, ?_⟩
  · have tree' := congrArg Edit.container same
    dsimp only at tree' ⊢
    rw [put_put_self found, tree']
  · exact (congrArg Edit.notes same).symm

end Container

theorem hostTypes_append (first second : List Node) :
    hostTypes (first ++ second) = hostTypes first ++ hostTypes second := by
  induction first with
  | nil => rfl
  | cons node first ih => simp only [List.cons_append, hostTypes, ih]

/-- In any package of a tree that is being built, an interface, a record or an object declared in
two pieces is the one declared at once: the tree is the same, and so are the notes. -/
theorem Container.joins_pieces {tree : Container} (reached : tree.Reachable) {place : Path}
    {c : Container} (found : tree.get? place = some c) (package : c.isPackage = true)
    (name : TypeName) (x : String) (typeParams more : List Ambient.TypeParam)
    (parents later first second : List Node) :
    tree.Joins place (.interfaceDecl name typeParams parents first)
      (.interfaceDecl name more later second)
      (.interfaceDecl name (typeParams ++ more) (parents ++ later) (first ++ second)) ∧
    tree.Joins place (.typeDecl name (.objectType first)) (.typeDecl name (.objectType second))
      (.typeDecl name (.objectType (first ++ second))) ∧
    tree.Joins place (.varDecl x (some (.objectType first)))
      (.varDecl x (some (.objectType second)))
      (.varDecl x (some (.objectType (first ++ second)))) := by
  have sound := reached.sound.of_get? found
  refine ⟨reached.sound.joins found package ?_, reached.sound.joins found package ?_,
    reached.sound.joins found package ?_⟩
  · simp only [declare, List.map_append, hostTypes_append, sound.declareInterface_append]
  · exact sound.fill_append ⟨.classOrTrait, name.text⟩ first second
  · exact sound.fill_append ⟨.object, x⟩ first second

/-- The first piece of the object promotes one constructor, which makes the class, and leaves a
placeholder for another one; the second promotes a constructor again. -/
theorem Container.joins_promoted :
    let made : Node := .constructorMember ⟨[], [], some (.named "A" [])⟩
    let other : Node := .constructorMember ⟨[], [], some (.named "B" [])⟩
    let again : Node := .constructorMember ⟨[], [⟨"p", true, none⟩], some (.named "A" [])⟩
    Container.root.Reachable ∧ Container.root.get? [] = some .root ∧
    Container.root.isPackage = true ∧
    Container.root.Joins [] (.varDecl "A" (some (.objectType [made, other])))
      (.varDecl "A" (some (.objectType [again])))
      (.varDecl "A" (some (.objectType [made, other, again]))) := by
  intro made other again
  exact ⟨.root, rfl, rfl, (joins_pieces .root rfl rfl (.plain "A") "A" [] [] [] []
    [made, other] [again]).2.2⟩

end Facade
