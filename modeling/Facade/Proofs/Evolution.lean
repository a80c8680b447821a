import Facade.Import.Declaration
import Facade.Symbol.Coherence

/-! What the walks over bodies and declarations may do to a tree. They keep every container
in it coherent and remove none, and they leave the identity of the container they change
alone, so that its siblings still find it and stay linked to it. -/
namespace Facade
open Ambient (Node Signature)

namespace Container

/-- A container is inside itself and inside whatever contains it. -/
inductive Inside : Container → Container → Prop where
  | self (c : Container) : Inside c c
  | member {c d e : Container} : .container d ∈ c.members → Inside e d → Inside e c

def Sound (c : Container) : Prop := ∀ d, Inside d c → d.Coherent

variable {c d e new old : Container} {j k : Key}

theorem sound_iff : c.Sound ↔ c.Coherent ∧ ∀ d, .container d ∈ c.members → d.Sound := by
  constructor
  · intro sound
    exact ⟨sound c (.self c), fun d member e inside => sound e (.member member inside)⟩
  · rintro ⟨coherent, members⟩ e inside
    cases inside with
    | self => exact coherent
    | member member inner => exact members _ member e inner

theorem Sound.coherent (sound : c.Sound) : c.Coherent := sound c (.self c)

theorem Sound.find? (sound : c.Sound) (found : c.find? k = some d) : d.Sound :=
  (sound_iff.mp sound).2 d (sound.coherent.find?_eq_some.mp found).1

theorem Sound.of_get? {path : Path} (sound : c.Sound) (found : c.get? path = some d) : d.Sound := by
  induction path generalizing c with
  | nil =>
    obtain rfl := Option.some.inj found
    exact sound
  | cons k path ih =>
    obtain ⟨inner, here, below⟩ := Option.bind_eq_some_iff.mp found
    exact ih (sound.find? here) below

theorem sound_fresh (k : Key) : (fresh k).Sound :=
  sound_iff.mpr ⟨coherent_fresh k, by simp [fresh]⟩

/-- The old container may give way to the new one wherever it stands. -/
structure Evolves (old new : Container) : Prop where
  key : new.key = old.key
  companion : new.companion = old.companion
  keeps : ∀ k, (old.place? k).isSome = true → (new.place? k).isSome = true
  sound : old.Sound → new.Sound

theorem Evolves.refl (c : Container) : c.Evolves c := ⟨rfl, rfl, fun _ => id, id⟩

theorem Evolves.trans (first : c.Evolves d) (second : d.Evolves e) : c.Evolves e where
  key := second.key.trans first.key
  companion := second.companion.trans first.companion
  keeps k := second.keeps k ∘ first.keeps k
  sound := second.sound ∘ first.sound

theorem Evolves.isPackage (evolves : c.Evolves d) : d.isPackage = c.isPackage := by
  simp only [Container.isPackage, kind, evolves.key]

theorem Evolves.find? (evolves : c.Evolves d) (sound : c.Sound) (found : c.find? k = some e) :
    ∃ e', d.find? k = some e' := by
  have placed : (c.place? k).isSome = true := by
    rw [sound.coherent.isSome_place?, found]
    rfl
  rw [← Option.isSome_iff_exists, ← (evolves.sound sound).coherent.isSome_place?]
  exact evolves.keeps k placed

/-- A coherent change that adds no container keeps the members sound. -/
theorem Evolves.of_members (key : d.key = c.key) (companion : d.companion = c.companion)
    (index : d.index.containers = c.index.containers) (coherent : c.Coherent → d.Coherent)
    (members : ∀ e, .container e ∈ d.members → .container e ∈ c.members) : c.Evolves d where
  key := key
  companion := companion
  keeps k := by simp only [place?, index, imp_self]
  sound sound := sound_iff.mpr ⟨coherent sound.coherent, fun e member =>
    (sound_iff.mp sound).2 e (members e member)⟩

theorem evolves_addComment (c : Container) (text : String) : c.Evolves (c.addComment text) :=
  .of_members rfl rfl rfl (·.addComment text) (by simp [addComment, append])

theorem evolves_addField? {name : String} {type : HostType}
    (added : c.addField? name type = some d) : c.Evolves d := by
  unfold addField? at added
  split at added
  · contradiction
  · next absent =>
    obtain rfl := Option.some.inj added
    exact .of_members rfl rfl rfl (·.addField type (by simpa using absent))
      (by simp [addField, append])

theorem evolves_addMethod? {m : Method} (added : c.addMethod? m = some d) : c.Evolves d := by
  unfold addMethod? at added
  split at added
  · contradiction
  · next absent =>
    obtain rfl := Option.some.inj added
    exact .of_members rfl rfl rfl (·.addMethod (by simpa using absent))
      (by simp [addMethod, append])

theorem evolves_enter (c : Container) (entry : Entry) : c.Evolves (c.enter entry).container := by
  unfold enter
  split
  · split
    · next added => exact evolves_addField? added
    · exact .refl c
  · split
    · next added => exact evolves_addMethod? added
    · exact .refl c
  · exact .refl c
  · exact evolves_addComment c _

theorem find?_enter (found : c.find? k = some old) (entry : Entry) :
    (c.enter entry).container.find? k = some old := by
  cases entry with
  | field name type =>
    rw [enter_field]
    split
    · exact found
    · exact find?_grown found (.field name type) rfl
  | method m =>
    rw [enter_method]
    split
    · exact found
    · exact find?_grown found (.method m) rfl
  | specialized name => exact found
  | placeholder node => exact find?_grown found (.comment (placeholderText node)) rfl

theorem evolves_enterAll (c : Container) (entries : List Entry) :
    c.Evolves (c.enterAll entries).container := by
  induction entries generalizing c with
  | nil => exact .refl c
  | cons entry entries ih => exact (evolves_enter c entry).trans (ih _)

theorem evolves_modifyClass (c : Container) {f : ClassHead → ClassHead}
    (name : ∀ info, (f info).name = info.name)
    (parents : ∀ info : ClassHead, info.parents.Nodup → (f info).parents.Nodup) :
    c.Evolves (modifyClass f c) := by
  unfold modifyClass
  split
  · next info head =>
    refine .of_members ?_ rfl rfl (fun coherent => ?_) fun _ => id
    · simp only [key, head, Head.key, name]
    · exact { toIndexed := coherent.toIndexed.of_members_eq rfl rfl
              linked := coherent.linked
              parents := fun other same => by
                obtain rfl := Head.classOrTrait.inj same
                exact parents info (coherent.parents info head) }
  · exact .refl c

theorem evolves_setTrait (c : Container) (value : Bool) : c.Evolves (c.setTrait value) :=
  evolves_modifyClass c (fun _ => rfl) fun _ => id

theorem evolves_addTypeParams (c : Container) (typeParams : List TypeParam) :
    c.Evolves (c.addTypeParams typeParams) :=
  evolves_modifyClass c (fun _ => rfl) fun _ => id

theorem nodup_addParents (info : ClassHead) (parents : List HostType)
    (distinct : info.parents.Nodup) : (info.addParents parents).parents.Nodup := by
  induction parents generalizing info with
  | nil => exact distinct
  | cons parent parents ih =>
    unfold ClassHead.addParents
    split
    · exact ih info distinct
    · next absent =>
      apply ih
      rw [List.nodup_append]
      refine ⟨distinct, by simp, ?_⟩
      rintro old member _ new rfl
      obtain rfl := List.mem_singleton.mp new
      exact absent (List.contains_iff_mem.mpr member)

theorem evolves_addParents (c : Container) (parents : List HostType) :
    c.Evolves (c.addParents parents) :=
  evolves_modifyClass c (·.name_addParents parents) (nodup_addParents · parents)

theorem evolves_replace (found : c.find? k = some old) (inner : old.Evolves new) :
    c.Evolves (c.replace k new) where
  key := by simp only [key, head_replace]
  companion := companion_replace
  keeps _ := by simp only [place?_replace, imp_self]
  sound sound := by
    refine sound_iff.mpr
      ⟨sound.coherent.replace found inner.key inner.companion, fun d member => ?_⟩
    rw [sound.coherent.members_replace found, List.mem_map] at member
    obtain ⟨s, here, same⟩ := member
    cases s with
    | container e =>
      simp only [Symbol.supplant, Symbol.container.injEq] at same
      split at same
      · exact same ▸ inner.sound (sound.find? found)
      · exact same ▸ (sound_iff.mp sound).2 e here
    | comment text | field name type | method m => contradiction

theorem evolves_put {path : Path} (found : c.get? path = some old) (inner : old.Evolves new) :
    c.Evolves (c.put new path) := by
  induction path generalizing c with
  | nil =>
    obtain rfl := Option.some.inj found
    exact inner
  | cons k path ih =>
    obtain ⟨d, here, below⟩ := Option.bind_eq_some_iff.mp found
    simp only [put, modify_of_find? here]
    exact evolves_replace here (ih below)

theorem evolves_modifyAt (c : Container) (path : Path) {f : Container → Container}
    (inner : ∀ d : Container, d.Evolves (f d)) : c.Evolves (c.modifyAt path f) := by
  unfold modifyAt
  split
  · next found => exact evolves_put found (inner _)
  · exact .refl c

theorem evolves_modify (c : Container) (k : Key) {f : Container → Container}
    (inner : ∀ d : Container, d.Evolves (f d)) : c.Evolves (c.modify k f) := by
  rw [← modifyAt_key]
  exact evolves_modifyAt c [k] inner

theorem sound_linkTo (sound : c.Sound) (k : Key) : (linkTo k c).Sound :=
  sound_iff.mpr ⟨⟨sound.coherent.toIndexed.of_members_eq rfl rfl, sound.coherent.linked,
    sound.coherent.parents⟩, (sound_iff.mp sound).2⟩

theorem sound_mem_modify (indexed : c.Indexed) {f : Container → Container}
    (members : ∀ d, .container d ∈ c.members → d.Sound) (inner : ∀ d, d.Sound → (f d).Sound) :
    ∀ d, .container d ∈ (c.modify k f).members → d.Sound := by
  intro d member
  rcases indexed.mem_modify member with ⟨e, there, _, rfl⟩ | ⟨there, _⟩
  · exact inner e (members e there)
  · exact members d there

/-- A new container is empty. -/
theorem sound_mem_create (sound : c.Sound) (k : Key) :
    ∀ d, .container d ∈ (c.create k).members → d.Sound := by
  intro d member
  rcases mem_create.mp member with there | rfl
  · exact (sound_iff.mp sound).2 d there
  · exact sound_fresh k

theorem Sound.ensure (sound : c.Sound) (k : Key) : (c.ensure k).Sound := by
  refine sound_iff.mpr ⟨sound.coherent.ensure k, ?_⟩
  cases placed : c.place? k with
  | some i =>
    rw [ensure_of_place? placed]
    exact (sound_iff.mp sound).2
  | none =>
    cases met : c.partner? k with
    | none =>
      rw [ensure_alone placed met]
      exact sound_mem_create sound k
    | some j =>
      -- Linking changes nothing inside the two containers.
      have made := sound.coherent.toIndexed.create placed
      have first := sound_mem_modify made (sound_mem_create sound k)
        (k := j) fun d inner => sound_linkTo inner k
      rw [ensure_linked placed met]
      exact sound_mem_modify (made.linkOne j k) first fun d inner => sound_linkTo inner j

theorem head_ensure : (c.ensure k).head = c.head := by
  cases placed : c.place? k with
  | some i => rw [ensure_of_place? placed]
  | none =>
    cases met : c.partner? k with
    | none =>
      rw [ensure_alone placed met]
      rfl
    | some j =>
      rw [ensure_linked placed met, link, head_modify, head_modify]
      rfl

theorem companion_ensure : (c.ensure k).companion = c.companion := by
  cases placed : c.place? k with
  | some i => rw [ensure_of_place? placed]
  | none =>
    cases met : c.partner? k with
    | none =>
      rw [ensure_alone placed met]
      rfl
    | some j =>
      rw [ensure_linked placed met, link, companion_modify, companion_modify]
      rfl

theorem isSome_place?_ensure (there : (c.place? j).isSome = true) :
    ((c.ensure k).place? j).isSome = true := by
  cases placed : c.place? k with
  | some i => rwa [ensure_of_place? placed]
  | none =>
    have apart : j ≠ k := by
      rintro rfl
      rw [placed] at there
      contradiction
    have created : ((c.create k).place? j).isSome = true := by rwa [place?_create_of_ne apart]
    cases met : c.partner? k with
    | none => rwa [ensure_alone placed met]
    | some i => rwa [ensure_linked placed met, link, place?_modify, place?_modify]

theorem evolves_ensure (c : Container) (k : Key) : c.Evolves (c.ensure k) where
  key := congrArg Head.key head_ensure
  companion := companion_ensure
  keeps _ := isSome_place?_ensure
  sound sound := sound.ensure k

end Container

/-! A walk changes its tree by entries at the owner and by promotions beside it. -/

namespace Container

/-- The class of a name, which is made if need be, stops being a trait. -/
def openClass (c : Container) (name : String) : Container :=
  (c.ensure ⟨.classOrTrait, name⟩).modify ⟨.classOrTrait, name⟩ (setTrait false)

theorem Coherent.exists_find?_openClass {c : Container} (coherent : c.Coherent) (name : String) :
    ∃ d, (c.openClass name).find? ⟨.classOrTrait, name⟩ = some d := by
  obtain ⟨d, found, _⟩ := coherent.exists_find?_ensure ⟨.classOrTrait, name⟩
  exact ⟨_, find?_modify_self found⟩

theorem evolves_openClass (c : Container) (name : String) : c.Evolves (c.openClass name) :=
  (evolves_ensure c _).trans (evolves_modify _ _ (evolves_setTrait · false))

end Container

namespace Walk

theorem promote_nil (w : Walk) (name : String) (signature : Signature) :
    w.promote [] name signature = Walk.enterAt { w with tree := w.tree.openClass name }
      [⟨.classOrTrait, name⟩] [signature.constructorEntry] := by
  unfold promote
  simp only [List.nil_append, Container.modifyAt_key]
  rfl

theorem enterAt_key {w : Walk} {k : Key} {owner : Container} (found : w.tree.find? k = some owner)
    (entries : List Entry) :
    w.enterAt [k] entries = { w with
      tree := w.tree.replace k (owner.enterAll entries).container
      notes := w.notes ++ (owner.enterAll entries).notes } := by
  simp only [enterAt, Container.get?_key, found, Container.put, Container.modify]

theorem enterAt_absent {w : Walk} {k : Key} (absent : w.tree.find? k = none)
    (entries : List Entry) : w.enterAt [k] entries = w := by
  simp only [enterAt, Container.get?_key, absent]

theorem evolves_enterAt (w : Walk) (path : Path) (entries : List Entry) :
    w.tree.Evolves (w.enterAt path entries).tree := by
  unfold enterAt
  split
  · next found => exact Container.evolves_put found (Container.evolves_enterAll _ entries)
  · exact .refl _

theorem evolves_promote (w : Walk) (enclosing : Path) (name : String) (signature : Signature) :
    w.tree.Evolves (w.promote enclosing name signature).tree := by
  have opened := Container.evolves_modifyAt w.tree enclosing
    (f := (·.ensure ⟨.classOrTrait, name⟩)) fun _ => Container.evolves_ensure _ _
  have cleared := Container.evolves_modifyAt
    (w.tree.modifyAt enclosing (·.ensure ⟨.classOrTrait, name⟩))
    (enclosing ++ [⟨.classOrTrait, name⟩]) (f := (·.setTrait false))
    fun _ => Container.evolves_setTrait _ false
  exact opened.trans (cleared.trans
    (evolves_enterAt { w with tree := _ } _ [signature.constructorEntry]))

/-- A constructor is promoted from an object, or it leaves a placeholder in the owner. -/
theorem constructor_cases (w : Walk) (site : Site) (signature : Signature) :
    (∃ owner name companion, w.tree.get? site.owner = some owner ∧ owner.head = .object name ∧
      w.constructor site signature =
        Walk.promote { w with companion } site.enclosing name signature) ∨
    ∃ companion, w.constructor site signature =
      Walk.enterAt { w with companion } site.owner
        [.placeholder (.constructorMember signature)] := by
  unfold constructor
  split
  · next enclosing name _ here =>
    obtain ⟨owner, found, head⟩ := Option.map_eq_some_iff.mp here
    dsimp only
    split
    · exact .inl ⟨owner, name, _, found, head, rfl⟩
    · exact .inr ⟨_, rfl⟩
  · exact .inr ⟨w.companion, rfl⟩

theorem evolves_constructor (w : Walk) (site : Site) (signature : Signature) :
    w.tree.Evolves (w.constructor site signature).tree := by
  obtain ⟨_, name, companion, _, _, promoted⟩ | ⟨companion, left⟩ :=
    constructor_cases w site signature
  · rw [promoted]
    exact evolves_promote { w with companion } _ _ _
  · rw [left]
    exact evolves_enterAt { w with companion } _ _

theorem evolves_member (w : Walk) (site : Site) (node : Node) :
    w.tree.Evolves (w.member site node).tree := by
  unfold member
  split
  · exact evolves_constructor w site _
  · exact evolves_enterAt w _ _

theorem evolves_members (w : Walk) (site : Site) (nodes : List Node) :
    w.tree.Evolves (w.members site nodes).tree := by
  induction nodes generalizing w with
  | nil => exact .refl _
  | cons node nodes ih => exact (evolves_member w site node).trans (ih _)

end Walk

namespace Container

theorem evolves_walkBody (c : Container) (site : Site) (nodes : List Node) :
    c.Evolves (c.walkBody site nodes).container :=
  Walk.evolves_members { tree := c } site nodes

theorem evolves_fill (c : Container) (k : Key) (members : List Node) :
    c.Evolves (c.fill k members).container :=
  (evolves_ensure c k).trans (evolves_walkBody _ _ members)

theorem evolves_extended (c : Container) (typeParams : List TypeParam) (parents : List HostType) :
    c.Evolves ((c.addParents parents).addTypeParams typeParams) :=
  (evolves_addParents c parents).trans (evolves_addTypeParams _ typeParams)

/-- The class of a name, which is made if need be, takes parents and type parameters. -/
def extendClass (c : Container) (name : String) (typeParams : List TypeParam)
    (parents : List HostType) : Container :=
  (c.ensure ⟨.classOrTrait, name⟩).modify ⟨.classOrTrait, name⟩ fun found =>
    (found.addParents parents).addTypeParams typeParams

theorem declareInterface_eq (c : Container) (name : String) (typeParams : List TypeParam)
    (parents : List HostType) (members : List Node) :
    c.declareInterface name typeParams parents members =
      (c.extendClass name typeParams parents).walkBody ⟨[], [⟨.classOrTrait, name⟩]⟩ members := by
  unfold declareInterface
  simp only [modifyAt_key]
  rfl

theorem evolves_extendClass (c : Container) (name : String) (typeParams : List TypeParam)
    (parents : List HostType) : c.Evolves (c.extendClass name typeParams parents) :=
  (evolves_ensure c _).trans (evolves_modify _ _ fun found =>
    evolves_extended found typeParams parents)

theorem Coherent.exists_find?_extendClass {c : Container} (coherent : c.Coherent) (name : String)
    (typeParams : List TypeParam) (parents : List HostType) :
    ∃ d, (c.extendClass name typeParams parents).find? ⟨.classOrTrait, name⟩ = some d := by
  obtain ⟨d, found, _⟩ := coherent.exists_find?_ensure ⟨.classOrTrait, name⟩
  exact ⟨_, find?_modify_self found⟩

theorem evolves_declareInterface (c : Container) (name : String) (typeParams : List TypeParam)
    (parents : List HostType) (members : List Node) :
    c.Evolves (c.declareInterface name typeParams parents members).container := by
  rw [declareInterface_eq]
  exact (evolves_extendClass c name typeParams parents).trans (evolves_walkBody _ _ members)

theorem evolves_declare_flat (c : Container) {node : Node}
    (flat : ∀ name members, node ≠ .moduleDecl name members) :
    c.Evolves (c.declare node).container := by
  cases node.form with
  | package name members => exact absurd rfl (flat name members)
  | object name members => exact evolves_fill c _ members
  | record name members => exact evolves_fill c _ members
  | interface name typeParams parents members =>
    exact evolves_declareInterface c _ _ _ members
  | single single =>
    rw [declare_single single]
    exact evolves_enter c _

mutual

theorem evolves_declare (c : Container) (node : Node) :
    c.Evolves (c.declare node).container := by
  cases node with
  | moduleDecl name members =>
    unfold declare
    split
    · refine (evolves_ensure c ⟨.package, name⟩).trans ?_
      dsimp only
      split
      · next found => exact evolves_replace found (evolves_declareAll _ members)
      · exact .refl _
    · exact .refl c
  | _ => exact evolves_declare_flat c nofun

theorem evolves_declareAll (c : Container) (nodes : List Node) :
    c.Evolves (c.declareAll nodes).container := by
  cases nodes with
  | nil => exact .refl c
  | cons node nodes =>
    unfold declareAll
    dsimp only
    split
    · exact evolves_declare c node
    · exact (evolves_declare c node).trans (evolves_declareAll _ nodes)

end

end Container
end Facade
