import Facade.Proofs.Marks

/-! What each declaration contributes to a tree without type parameters. A class is then always
referred to by its name alone, so that it can be told from a constructor by itself whether it is
promoted, and the marks of a declaration can be listed without a tree. -/
namespace Facade
open Ambient (Node Signature)
open Marks (here under)

namespace Ambient.Node

/-- What a member of the body at a key leaves in the package around it. -/
def memberMarks (k : Key) : Node → Marks
  | .constructorMember s =>
      if k.kind = .object ∧ s.result.any (·.same (.named k.name [])) = true then
        let j : Key := ⟨.classOrTrait, k.name⟩
        here [.child j] ++ under j (here (.concrete :: s.constructorEntry.marks))
      else under k (here [.comment (placeholderText (.constructorMember s))])
  | node => under k (here (node.entries.flatMap (·.marks)))

end Ambient.Node

def fillMarks (k : Key) (members : List Node) : Marks :=
  here [.child k] ++ members.flatMap (·.memberMarks k)

mutual

/-- What a declaration leaves in the package it stands in. -/
def Ambient.Node.marks : Node → Marks
  | .moduleDecl name members =>
      here [.child ⟨.package, name⟩] ++ under ⟨.package, name⟩ (marksOf members)
  | .varDecl name (some (.objectType members)) => fillMarks ⟨.object, name⟩ members
  | .typeDecl name (.objectType members) => fillMarks ⟨.classOrTrait, name.text⟩ members
  | .interfaceDecl name _ parents members =>
      let k : Key := ⟨.classOrTrait, name.text⟩
      here [.child k] ++ under k (here ((hostTypes parents).map .parent)) ++
        members.flatMap (·.memberMarks k)
  | node => here ((node.single?.map (·.marks)).getD [])

def marksOf : List Node → Marks
  | [] => []
  | node :: nodes => node.marks ++ marksOf nodes

end

theorem marksOf_eq_flatMap (nodes : List Node) : marksOf nodes = nodes.flatMap (·.marks) := by
  induction nodes with
  | nil => rfl
  | cons node nodes ih => rw [marksOf, ih, List.flatMap_cons]

theorem Ambient.Node.marks_single {node : Node} {entry : Entry}
    (single : node.single? = some entry) : node.marks = here entry.marks := by
  cases node with
  | moduleDecl name members | interfaceDecl name typeParams parents members => contradiction
  | varDecl name type =>
    cases type with
    | none => cases single; rfl
    | some type => cases type <;> cases single <;> rfl
  | typeDecl name type => cases type <;> cases single <;> rfl
  | _ => cases single; rfl

namespace Container

variable {c d owner : Container} {k : Key} {x : String}

def Unparametrized (c : Container) : Prop := ∀ path, c.paramsAt path = []

theorem unparametrized_fresh (k : Key) : (fresh k).Unparametrized := paramsAt_fresh k

theorem SameParams.unparametrized (same : c.SameParams d) (plain : c.Unparametrized) :
    d.Unparametrized := fun path => (same path).trans (plain path)

theorem Unparametrized.companionReference (plain : c.Unparametrized) (x : String) :
    c.companionReference x = .named x [] := by
  rw [companionReference_eq, plain]
  rfl

theorem Unparametrized.find? (plain : c.Unparametrized) (found : c.find? k = some d) :
    d.Unparametrized := by
  intro path
  have below := plain (k :: path)
  rwa [paramsAt_cons, found] at below

/-! ## Bodies -/

theorem Sound.marked_entries (sound : c.Sound) (found : c.find? k = some owner)
    (entries : List Entry) :
    Marked c (under k (here (entries.flatMap (·.marks))))
      (Walk.enterAt { tree := c } [k] entries).tree := by
  rw [Walk.enterAt_key found]
  exact sound.coherent.toIndexed.marked_replace found ((sound.find? found).marked_enterAll entries)

theorem Sound.marked_openClass (sound : c.Sound) (x : String) :
    Marked c (here [.child ⟨.classOrTrait, x⟩] ++ under ⟨.classOrTrait, x⟩ (here [.concrete]))
      (c.openClass x) := by
  obtain ⟨d, found, key⟩ := sound.coherent.exists_find?_ensure ⟨.classOrTrait, x⟩
  obtain ⟨info, head, _⟩ := Head.key_eq_classOrTrait.mp key
  exact (sound.coherent.marked_ensure _).trans
    ((sound.coherent.ensure _).toIndexed.marked_modify found (marked_untrait head))

theorem Sound.marked_promote (sound : c.Sound) (x : String) (s : Signature) :
    Marked c (here [.child ⟨.classOrTrait, x⟩] ++
        under ⟨.classOrTrait, x⟩ (here (.concrete :: s.constructorEntry.marks)))
      (Walk.promote { tree := c } [] x s).tree := by
  obtain ⟨d, found⟩ := sound.coherent.exists_find?_openClass x
  have opened := (evolves_openClass c x).sound sound
  have whole := (sound.marked_openClass x).trans
    (opened.marked_entries found [s.constructorEntry])
  rw [Walk.promote_nil]
  simpa only [here, under, List.map_cons, List.map_nil, List.flatMap_cons, List.flatMap_nil,
    List.append_nil, List.append_assoc, List.cons_append, List.nil_append] using whole

theorem Sound.marked_constructor (sound : c.Sound) (plain : c.Unparametrized)
    (found : c.find? k = some owner) (s : Signature) :
    Marked c ((Node.constructorMember s).memberMarks k)
      (Walk.constructor { tree := c } ⟨[], [k]⟩ s).tree := by
  have key := sound.coherent.key_of_find? found
  by_cases object : k.kind = .object
  · have own : k = ⟨.object, k.name⟩ := by rw [← object]
    have head : owner.head = .object k.name := Head.key_eq_object.mp (key.trans own)
    rw [Walk.constructor_object (Walk.current_begun c k) found head rfl,
      plain.companionReference]
    simp only [Node.memberMarks, object, true_and]
    split
    · rw [Walk.promote_eq]
      exact sound.marked_promote k.name s
    · rw [Walk.enterAt_eq]
      exact sound.marked_entries found [.placeholder (.constructorMember s)]
  · have elsewhere : ∀ other name, c.find? k = some other → other.head ≠ .object name := by
      intro other name there head
      obtain rfl := Option.some.inj (found.symm.trans there)
      rw [← key, Container.key, head] at object
      exact object rfl
    rw [Walk.constructor_elsewhere elsewhere]
    simp only [Node.memberMarks, object, false_and, ↓reduceIte]
    exact sound.marked_entries found [.placeholder (.constructorMember s)]

theorem Sound.marked_member (sound : c.Sound) (plain : c.Unparametrized)
    (found : c.find? k = some owner) (node : Node) :
    Marked c (node.memberMarks k) (c.walkBody ⟨[], [k]⟩ [node]).container := by
  cases node with
  | constructorMember s => exact sound.marked_constructor plain found s
  | _ => exact sound.marked_entries found _

theorem Sound.marked_walkBody (sound : c.Sound) (plain : c.Unparametrized)
    (found : c.find? k = some owner) (members : List Node) :
    Marked c (members.flatMap (·.memberMarks k)) (c.walkBody ⟨[], [k]⟩ members).container := by
  induction members generalizing c owner with
  | nil => exact .refl c
  | cons node members ih =>
    have evolves := evolves_walkBody c ⟨[], [k]⟩ [node]
    obtain ⟨owner', found'⟩ := evolves.find? sound found
    have rest := ih (evolves.sound sound)
      ((sound.sameParams_walkBody ⟨[], [k]⟩ [node]).unparametrized plain) found'
    have split := sound.walkBody_append k [node] members
    rw [List.singleton_append] at split
    rw [split, List.flatMap_cons]
    exact (sound.marked_member plain found node).trans rest

theorem Sound.marked_fill (sound : c.Sound) (plain : c.Unparametrized) (k : Key)
    (members : List Node) : Marked c (fillMarks k members) (c.fill k members).container := by
  obtain ⟨owner, found, _⟩ := sound.coherent.exists_find?_ensure k
  exact (sound.coherent.marked_ensure k).trans
    ((sound.ensure k).marked_walkBody
      ((sound.coherent.sameParams_ensure k).unparametrized plain) found members)

theorem Sound.marked_extendClass (sound : c.Sound) (x : String) (parents : List HostType) :
    Marked c (here [.child ⟨.classOrTrait, x⟩] ++
        under ⟨.classOrTrait, x⟩ (here (parents.map .parent)))
      (c.extendClass x [] parents) := by
  obtain ⟨d, found, key⟩ := sound.coherent.exists_find?_ensure ⟨.classOrTrait, x⟩
  obtain ⟨info, head, _⟩ := Head.key_eq_classOrTrait.mp key
  exact (sound.coherent.marked_ensure _).trans
    ((sound.coherent.ensure _).toIndexed.marked_modify found (marked_addParents head parents))

theorem Sound.marked_declareInterface (sound : c.Sound) (plain : c.Unparametrized) (x : String)
    (parents : List HostType) (members : List Node) :
    Marked c (here [.child ⟨.classOrTrait, x⟩] ++
        under ⟨.classOrTrait, x⟩ (here (parents.map .parent)) ++
        members.flatMap (·.memberMarks ⟨.classOrTrait, x⟩))
      (c.declareInterface x [] parents members).container := by
  obtain ⟨owner, found⟩ := sound.coherent.exists_find?_extendClass x [] parents
  rw [declareInterface_eq]
  exact (sound.marked_extendClass x parents).trans
    (((evolves_extendClass c x [] parents).sound sound).marked_walkBody
      ((sound.coherent.sameParams_extendClass x parents).unparametrized plain) found members)

/-! ## Declarations -/

theorem Sound.marked_declare_flat (sound : c.Sound) (params : c.Unparametrized) {node : Node}
    (plain : node.unparametrized = true) (flat : ∀ name members, node ≠ .moduleDecl name members) :
    Marked c node.marks (c.declare node).container := by
  cases node.form with
  | package name members => exact absurd rfl (flat name members)
  | object name members => exact sound.marked_fill params _ members
  | record name members => exact sound.marked_fill params _ members
  | interface name typeParams parents members =>
    obtain rfl : typeParams = [] := List.isEmpty_iff.mp plain
    exact sound.marked_declareInterface params name.text (hostTypes parents) members
  | single single =>
    rw [declare_single single, Ambient.Node.marks_single single]
    exact sound.coherent.toIndexed.marked_enter _

mutual

theorem Sound.marked_declare {c : Container} (sound : c.Sound) (package : c.isPackage = true)
    (params : c.Unparametrized) (node : Node) (plain : node.unparametrized = true) :
    Marked c node.marks (c.declare node).container := by
  cases node with
  | moduleDecl name members =>
    obtain ⟨inner, found, innerSound, innerPackage⟩ := sound.exists_opened name
    have opened := (sound.coherent.sameParams_ensure ⟨.package, name⟩).unparametrized params
    simp only [declare, package, found, ↓reduceIte]
    exact (sound.coherent.marked_ensure _).trans
      ((sound.coherent.ensure _).toIndexed.marked_replace found
        (innerSound.marked_declareAll innerPackage (opened.find? found) members plain))
  | _ => exact sound.marked_declare_flat params plain nofun

theorem Sound.marked_declareAll {c : Container} (sound : c.Sound) (package : c.isPackage = true)
    (params : c.Unparametrized) (nodes : List Node) (plain : allUnparametrized nodes = true) :
    Marked c (marksOf nodes) (c.declareAll nodes).container := by
  cases nodes with
  | nil => exact .refl c
  | cons node nodes =>
    obtain ⟨first, rest⟩ := (Bool.and_eq_true _ _).mp plain
    have evolves := evolves_declare c node
    have params' := (sound.sameParams_declare package node first).unparametrized params
    rw [declareAll_cons sound package]
    exact (sound.marked_declare package params node first).trans
      ((evolves.sound sound).marked_declareAll (evolves.isPackage.trans package) params' nodes rest)

end

end Container

theorem unparametrized_importTree {declarations : List Node}
    (plain : allUnparametrized declarations = true) :
    (importTree declarations).container.Unparametrized :=
  (Container.sound_root.sameParams_declareAll rfl declarations plain).unparametrized
    (Container.unparametrized_fresh _)

theorem marked_importTree {declarations : List Node}
    (plain : allUnparametrized declarations = true) :
    Container.root.Marked (marksOf declarations) (importTree declarations).container :=
  Container.sound_root.marked_declareAll rfl (Container.unparametrized_fresh _) declarations plain

/-- A tree shows what its declarations left in it, and nothing else. -/
theorem bearsAt_importTree {declarations : List Node}
    (plain : allUnparametrized declarations = true) (path : Path) (mark : Mark) :
    (importTree declarations).container.BearsAt path mark ↔ (path, mark) ∈ marksOf declarations :=
  ((marked_importTree plain).bears path mark).trans
    (or_iff_right (Container.not_bearsAt_fresh _ path mark))

theorem commentTexts_importTree {declarations : List Node}
    (plain : allUnparametrized declarations = true) {path : Path} {c : Container}
    (found : (importTree declarations).container.get? path = some c) :
    c.commentTexts = (marksOf declarations).commentsAt path := by
  have all := (marked_importTree plain).comments path
  rwa [Container.root, Container.commentsAt_fresh, List.nil_append, Container.commentsAt,
    found] at all

end Facade
