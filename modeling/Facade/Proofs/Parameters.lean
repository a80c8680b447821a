import Facade.Proofs.Nesting

/-! The type parameters of classes. No body changes those of any class in the tree, whatever it
promotes, and what is made has none: an interface alone adds to the type parameters of its
class, and it adds them after those that are there. -/
namespace Facade
open Ambient (Node Signature)

def Head.typeParams : Head → List TypeParam
  | .classOrTrait info => info.typeParams
  | _ => []

namespace Container

/-- The type parameters of the class at a path, and none where there is no class. -/
def paramsAt (c : Container) (path : Path) : List TypeParam :=
  ((c.get? path).map (·.head.typeParams)).getD []

/-- The classes of two trees have the same type parameters. -/
def SameParams (c d : Container) : Prop := ∀ path, d.paramsAt path = c.paramsAt path

variable {c d e new old : Container} {j k : Key} {x : String} {path : Path}

theorem paramsAt_cons (c : Container) (k : Key) (path : Path) :
    c.paramsAt (k :: path) = ((c.find? k).map (·.paramsAt path)).getD [] := by
  simp only [paramsAt, get?]
  cases c.find? k <;> rfl

theorem paramsAt_key (c : Container) (k : Key) :
    c.paramsAt [k] = ((c.find? k).map (·.head.typeParams)).getD [] := paramsAt_cons c k []

theorem companionReference_eq (c : Container) (name : String) :
    c.companionReference name =
      .named name ((c.paramsAt [⟨.classOrTrait, name⟩]).map fun p => .named p.name []) := by
  rw [companionReference, paramsAt_key]
  cases c.find? ⟨.classOrTrait, name⟩ with
  | none => rfl
  | some d => cases head : d.head <;> simp [classHead?, head, Head.typeParams]

theorem paramsAt_fresh (k : Key) (path : Path) : (fresh k).paramsAt path = [] := by
  cases path with
  | nil =>
    obtain ⟨kind, name⟩ := k
    cases kind <;> rfl
  | cons j path => rfl

/-! ## What leaves them alone -/

theorem SameParams.refl (c : Container) : c.SameParams c := fun _ => rfl

theorem SameParams.trans (first : c.SameParams d) (second : d.SameParams e) : c.SameParams e :=
  fun path => (second path).trans (first path)

theorem SameParams.companionReference (same : c.SameParams d) (name : String) :
    d.companionReference name = c.companionReference name := by
  rw [companionReference_eq, same, ← companionReference_eq]

theorem sameParams_of_find? (head : d.head.typeParams = c.head.typeParams)
    (kept : ∀ k, d.find? k = c.find? k) : c.SameParams d := by
  intro path
  cases path with
  | nil => exact head
  | cons k path => rw [paramsAt_cons, kept, paramsAt_cons]

theorem sameParams_linkTo (c : Container) (k : Key) : c.SameParams (linkTo k c) :=
  sameParams_of_find? rfl fun _ => rfl

theorem sameParams_modifyClass (c : Container) {f : ClassHead → ClassHead}
    (kept : ∀ info, (f info).typeParams = info.typeParams) : c.SameParams (modifyClass f c) := by
  unfold modifyClass
  split
  · next info head =>
    refine sameParams_of_find? ?_ fun _ => rfl
    rw [head]
    exact kept info
  · exact .refl c

theorem Indexed.sameParams_replace (indexed : c.Indexed) (found : c.find? k = some old)
    (inner : old.SameParams new) : c.SameParams (c.replace k new) := by
  intro path
  cases path with
  | nil =>
    unfold paramsAt get?
    simp only [Option.map_some, head_replace]
  | cons j path =>
    rw [paramsAt_cons, paramsAt_cons]
    by_cases same : j = k
    · subst j
      rw [find?_replace_self found, found]
      exact inner path
    · rw [indexed.find?_replace_of_ne same]

theorem Indexed.sameParams_modify (indexed : c.Indexed) {f : Container → Container}
    (inner : ∀ d : Container, d.SameParams (f d)) : c.SameParams (c.modify k f) := by
  cases found : c.find? k with
  | none =>
    rw [modify_of_absent found]
    exact .refl c
  | some d =>
    rw [modify_of_find? found]
    exact indexed.sameParams_replace found (inner d)

theorem Indexed.sameParams_create (indexed : c.Indexed) (absent : c.place? k = none) :
    c.SameParams (c.create k) := by
  intro path
  cases path with
  | nil => rfl
  | cons j path =>
    rw [paramsAt_cons, paramsAt_cons]
    by_cases same : j = k
    · subst j
      have none : c.find? k = none := by rw [Container.find?, absent, Option.bind_none]
      rw [find?_create_self absent, none]
      exact paramsAt_fresh k path
    · rw [indexed.find?_create_of_ne_eq same]

theorem Coherent.sameParams_ensure (coherent : c.Coherent) (k : Key) :
    c.SameParams (c.ensure k) := by
  cases placed : c.place? k with
  | some i =>
    rw [ensure_of_place? placed]
    exact .refl c
  | none =>
    have made := coherent.toIndexed.create placed
    have created := coherent.toIndexed.sameParams_create placed
    cases met : c.partner? k with
    | none => rwa [ensure_alone placed met]
    | some j =>
      rw [ensure_linked placed met]
      exact created.trans ((made.sameParams_modify (sameParams_linkTo · k)).trans
        ((made.linkOne j k).sameParams_modify (sameParams_linkTo · j)))

theorem head_enter (c : Container) (entry : Entry) : (c.enter entry).container.head = c.head := by
  cases entry with
  | field name type =>
    rw [enter_field]
    split <;> rfl
  | method m =>
    rw [enter_method]
    split <;> rfl
  | specialized name | placeholder node => rfl

theorem place?_enter (c : Container) (entry : Entry) :
    (c.enter entry).container.place? k = c.place? k := by
  cases entry with
  | field name type =>
    rw [enter_field]
    split <;> rfl
  | method m =>
    rw [enter_method]
    split <;> rfl
  | specialized name | placeholder node => rfl

theorem Indexed.find?_enter_eq (indexed : c.Indexed) (entry : Entry) :
    (c.enter entry).container.find? k = c.find? k := by
  cases found : c.find? k with
  | some d => exact find?_enter found entry
  | none => rw [Container.find?, place?_enter, indexed.place?_eq_none found, Option.bind_none]

theorem Sound.sameParams_enter (sound : c.Sound) (entry : Entry) :
    c.SameParams (c.enter entry).container :=
  sameParams_of_find? (by rw [head_enter]) fun _ => sound.coherent.find?_enter_eq entry

theorem Sound.sameParams_enterAll (sound : c.Sound) (entries : List Entry) :
    c.SameParams (c.enterAll entries).container := by
  induction entries generalizing c with
  | nil => exact .refl c
  | cons entry entries ih =>
    exact (sound.sameParams_enter entry).trans (ih ((evolves_enter c entry).sound sound))

theorem Sound.sameParams_put (sound : c.Sound) (found : c.get? path = some old)
    (inner : old.SameParams new) : c.SameParams (c.put new path) := by
  induction path generalizing c with
  | nil =>
    obtain rfl := Option.some.inj found
    exact inner
  | cons k path ih =>
    obtain ⟨d, here, below⟩ := Option.bind_eq_some_iff.mp found
    rw [put, modify_of_find? here]
    exact sound.coherent.sameParams_replace here (ih (sound.find? here) below)

theorem Sound.sameParams_modifyAt (sound : c.Sound) (path : Path) {f : Container → Container}
    (inner : ∀ d : Container, d.Sound → d.SameParams (f d)) : c.SameParams (c.modifyAt path f) := by
  unfold modifyAt
  split
  · next d found => exact sound.sameParams_put found (inner d (sound.of_get? found))
  · exact .refl c

end Container

namespace Walk
open Container (SameParams)

theorem sameParams_enterAt (w : Walk) (sound : w.tree.Sound) (path : Path)
    (entries : List Entry) : w.tree.SameParams (w.enterAt path entries).tree := by
  unfold enterAt
  split
  · next owner found =>
    exact sound.sameParams_put found ((sound.of_get? found).sameParams_enterAll entries)
  · exact .refl _

/-- The class that is made for a constructor has no type parameters, and the others keep
theirs. -/
theorem sameParams_promote (w : Walk) (sound : w.tree.Sound) (enclosing : Path) (name : String)
    (signature : Signature) : w.tree.SameParams (w.promote enclosing name signature).tree := by
  let k : Key := ⟨.classOrTrait, name⟩
  have made := sound.sameParams_modifyAt enclosing fun d inner => inner.coherent.sameParams_ensure k
  have sound₁ := (Container.evolves_modifyAt w.tree enclosing
    (f := (·.ensure k)) fun d => Container.evolves_ensure d k).sound sound
  have cleared := sound₁.sameParams_modifyAt (enclosing ++ [k])
    (f := (·.setTrait false)) fun d _ => Container.sameParams_modifyClass d fun _ => rfl
  have sound₂ := (Container.evolves_modifyAt _ (enclosing ++ [k])
    fun d => Container.evolves_setTrait d false).sound sound₁
  exact made.trans (cleared.trans (sameParams_enterAt { w with tree := _ } sound₂ _ _))

theorem sameParams_member (w : Walk) (sound : w.tree.Sound) (site : Site) (node : Node) :
    w.tree.SameParams (w.member site node).tree := by
  unfold member
  split
  · next signature =>
    obtain ⟨_, name, companion, _, _, promoted⟩ | ⟨companion, left⟩ :=
      constructor_cases w site signature
    · rw [promoted]
      exact sameParams_promote { w with companion } sound _ name signature
    · rw [left]
      exact sameParams_enterAt { w with companion } sound _ _
  · exact sameParams_enterAt w sound _ _

theorem sameParams_members (w : Walk) (sound : w.tree.Sound) (site : Site) (nodes : List Node) :
    w.tree.SameParams (w.members site nodes).tree := by
  induction nodes generalizing w with
  | nil => exact .refl _
  | cons node nodes ih =>
    exact (sameParams_member w sound site node).trans
      (ih (w.member site node) ((evolves_member w site node).sound sound))

end Walk

namespace Container

variable {c d : Container} {k : Key} {x : String}

theorem Sound.sameParams_walkBody (sound : c.Sound) (site : Site) (members : List Node) :
    c.SameParams (c.walkBody site members).container :=
  Walk.sameParams_members { tree := c } sound site members

theorem Sound.sameParams_fill (sound : c.Sound) (k : Key) (members : List Node) :
    c.SameParams (c.fill k members).container :=
  (sound.coherent.sameParams_ensure k).trans
    (((evolves_ensure c k).sound sound).sameParams_walkBody _ members)

/-! ## What adds to them -/

theorem typeParams_extended (key : d.key = ⟨.classOrTrait, x⟩) (typeParams : List TypeParam)
    (parents : List HostType) :
    ((d.addParents parents).addTypeParams typeParams).head.typeParams =
      d.head.typeParams ++ typeParams := by
  obtain ⟨info, head, _⟩ := Head.key_eq_classOrTrait.mp key
  simp only [addTypeParams, addParents, modifyClass, head, Head.typeParams,
    ClassHead.typeParams_addParents]

theorem Sound.paramsAt_extendClass (sound : c.Sound) (name : String)
    (typeParams : List TypeParam) (parents : List HostType) :
    (c.extendClass name typeParams parents).paramsAt [⟨.classOrTrait, x⟩] =
      c.paramsAt [⟨.classOrTrait, x⟩] ++ if name = x then typeParams else [] := by
  obtain ⟨d, found, key⟩ := sound.coherent.exists_find?_ensure ⟨.classOrTrait, name⟩
  have before := sound.coherent.sameParams_ensure ⟨.classOrTrait, name⟩ [⟨.classOrTrait, x⟩]
  unfold extendClass
  rw [modify_of_find? found, ← before, paramsAt_key, paramsAt_key]
  by_cases own : name = x
  · subst own
    rw [find?_replace_self found, found, if_pos rfl]
    exact typeParams_extended key typeParams parents
  · have apart : (⟨.classOrTrait, x⟩ : Key) ≠ ⟨.classOrTrait, name⟩ := fun same =>
      own (Key.mk.inj same).2.symm
    rw [(sound.coherent.ensure _).find?_replace_of_ne apart, if_neg own, List.append_nil]

theorem Sound.paramsAt_declareInterface (sound : c.Sound) (name : String)
    (typeParams : List TypeParam) (parents : List HostType) (members : List Node) :
    (c.declareInterface name typeParams parents members).container.paramsAt
        [⟨.classOrTrait, x⟩] =
      c.paramsAt [⟨.classOrTrait, x⟩] ++ if name = x then typeParams else [] := by
  have extended := (evolves_extendClass c name typeParams parents).sound sound
  rw [declareInterface_eq, extended.sameParams_walkBody, sound.paramsAt_extendClass]

end Container

/-- The type parameters of a declaration that is a piece of the interface of a name. -/
def Ambient.Node.piece? (x : String) : Node → Option (List Ambient.TypeParam)
  | .interfaceDecl name typeParams _ _ => if name.text = x then some typeParams else none
  | _ => none

/-- The pieces of the interface of a name, each by its type parameters. -/
def pieces (x : String) (declarations : List Node) : List (List Ambient.TypeParam) :=
  declarations.filterMap (·.piece? x)

theorem Ambient.Node.eq_interfaceDecl {node : Node} {x : String}
    {typeParams : List Ambient.TypeParam} (piece : node.piece? x = some typeParams) :
    ∃ name parents members, name.text = x ∧
      node = .interfaceDecl name typeParams parents members := by
  cases node with
  | interfaceDecl name own parents members =>
    simp only [piece?, Option.ite_none_right_eq_some, Option.some.injEq] at piece
    obtain ⟨same, rfl⟩ := piece
    exact ⟨name, parents, members, same, rfl⟩
  | _ => contradiction

theorem Ambient.Node.piece?_single {node : Node} {entry : Entry} {x : String}
    (single : node.single? = some entry) : node.piece? x = none := by
  cases node with
  | interfaceDecl name typeParams parents members => contradiction
  | _ => rfl

namespace Container

variable {c : Container} {x : String}

theorem Sound.paramsAt_declare (sound : c.Sound) (package : c.isPackage = true) (node : Node) :
    (c.declare node).container.paramsAt [⟨.classOrTrait, x⟩] =
      c.paramsAt [⟨.classOrTrait, x⟩] ++ ((node.piece? x).getD []).map .ofAmbient := by
  cases node.form with
  | package name members =>
    obtain ⟨inner, found, _, done⟩ := sound.declare_moduleDecl package name members
    have apart : (⟨.classOrTrait, x⟩ : Key) ≠ ⟨.package, name⟩ := fun same =>
      Kind.noConfusion (congrArg Key.kind same)
    rw [done, paramsAt_key, (sound.coherent.ensure _).find?_replace_of_ne apart, ← paramsAt_key,
      sound.coherent.sameParams_ensure]
    exact (List.append_nil _).symm
  | object name members => exact (sound.sameParams_fill _ members _).trans (List.append_nil _).symm
  | record name members => exact (sound.sameParams_fill _ members _).trans (List.append_nil _).symm
  | interface name typeParams parents members =>
    refine (sound.paramsAt_declareInterface _ _ _ members).trans (congrArg _ ?_)
    simp only [Ambient.Node.piece?]
    split <;> rfl
  | single single =>
    rw [declare_single single, Ambient.Node.piece?_single single, sound.sameParams_enter]
    exact (List.append_nil _).symm

/-- A class ends up with the type parameters of all pieces, one after the other. -/
theorem Sound.paramsAt_declareAll (sound : c.Sound) (package : c.isPackage = true)
    (nodes : List Node) :
    (c.declareAll nodes).container.paramsAt [⟨.classOrTrait, x⟩] =
      c.paramsAt [⟨.classOrTrait, x⟩] ++ (pieces x nodes).flatten.map .ofAmbient := by
  induction nodes generalizing c with
  | nil => exact (List.append_nil _).symm
  | cons node nodes ih =>
    have evolves := evolves_declare c node
    have rest := ih (evolves.sound sound) (evolves.isPackage.trans package)
    rw [declareAll_cons sound package]
    dsimp only
    rw [rest, sound.paramsAt_declare package, List.append_assoc]
    congr 1
    simp only [pieces, List.filterMap_cons]
    cases node.piece? x with
    | none => rfl
    | some typeParams => simp only [Option.getD_some, List.flatten_cons, List.map_append]

end Container

/-! ## Declarations without type parameters -/

mutual

/-- No interface in any of the namespaces that a declaration opens has type parameters. -/
def Ambient.Node.unparametrized : Node → Bool
  | .moduleDecl _ members => allUnparametrized members
  | .interfaceDecl _ typeParams _ _ => typeParams.isEmpty
  | _ => true

def allUnparametrized : List Node → Bool
  | [] => true
  | node :: nodes => node.unparametrized && allUnparametrized nodes

end

theorem allUnparametrized_iff {nodes : List Node} :
    allUnparametrized nodes = true ↔ ∀ node ∈ nodes, node.unparametrized = true := by
  induction nodes with
  | nil => simp [allUnparametrized]
  | cons node nodes ih => simp [allUnparametrized, ih]

namespace Container

theorem Coherent.sameParams_extendClass {c : Container} (coherent : c.Coherent) (name : String)
    (parents : List HostType) : c.SameParams (c.extendClass name [] parents) := by
  refine (coherent.sameParams_ensure _).trans
    ((coherent.ensure _).toIndexed.sameParams_modify fun d => ?_)
  have joined := sameParams_modifyClass d fun info => info.typeParams_addParents parents
  exact joined.trans (sameParams_modifyClass _ fun info => List.append_nil info.typeParams)

theorem Sound.sameParams_declareInterface {c : Container} (sound : c.Sound) (name : String)
    (parents : List HostType) (members : List Node) :
    c.SameParams (c.declareInterface name [] parents members).container := by
  rw [declareInterface_eq]
  exact (sound.coherent.sameParams_extendClass name parents).trans
    (((evolves_extendClass c name [] parents).sound sound).sameParams_walkBody _ members)

theorem Sound.sameParams_declare_flat {c : Container} (sound : c.Sound) {node : Node}
    (plain : node.unparametrized = true) (flat : ∀ name members, node ≠ .moduleDecl name members) :
    c.SameParams (c.declare node).container := by
  cases node.form with
  | package name members => exact absurd rfl (flat name members)
  | object name members => exact sound.sameParams_fill _ members
  | record name members => exact sound.sameParams_fill _ members
  | interface name typeParams parents members =>
    obtain rfl : typeParams = [] := List.isEmpty_iff.mp plain
    exact sound.sameParams_declareInterface name.text (hostTypes parents) members
  | single single =>
    rw [declare_single single]
    exact sound.sameParams_enter _

mutual

theorem Sound.sameParams_declare {c : Container} (sound : c.Sound) (package : c.isPackage = true)
    (node : Node) (plain : node.unparametrized = true) :
    c.SameParams (c.declare node).container := by
  cases node with
  | moduleDecl name members =>
    obtain ⟨inner, found, innerSound, innerPackage⟩ := sound.exists_opened name
    simp only [declare, package, found, ↓reduceIte]
    exact (sound.coherent.sameParams_ensure _).trans
      ((sound.coherent.ensure _).toIndexed.sameParams_replace found
        (innerSound.sameParams_declareAll innerPackage members plain))
  | _ => exact sound.sameParams_declare_flat plain nofun

theorem Sound.sameParams_declareAll {c : Container} (sound : c.Sound)
    (package : c.isPackage = true) (nodes : List Node) (plain : allUnparametrized nodes = true) :
    c.SameParams (c.declareAll nodes).container := by
  cases nodes with
  | nil => exact .refl c
  | cons node nodes =>
    obtain ⟨first, rest⟩ := (Bool.and_eq_true _ _).mp plain
    have evolves := evolves_declare c node
    rw [declareAll_cons sound package]
    exact (sound.sameParams_declare package node first).trans
      ((evolves.sound sound).sameParams_declareAll (evolves.isPackage.trans package) nodes rest)

end

end Container

end Facade
