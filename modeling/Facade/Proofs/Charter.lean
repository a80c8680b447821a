import Facade.Proofs.Growth
import Facade.Proofs.Marks

/-! Charters say what a container may hold. If a charter covers all declarations of an import,
every container of the tree keeps to it: only a few places bring anything to a container, and
what is allowed in one stays allowed while that grows. -/
namespace Facade
open Ambient (Node Signature)

/-- Which parents and type parameters a head may have, and which fields and methods may stand
below a head. -/
structure Charter where
  parent : HostType → Prop
  typeParam : TypeParam → Prop
  field : Head → String → HostType → Prop
  method : Head → Method → Prop
  field_grows : ∀ {old new : Head} {name : String} {type : HostType},
    old.Grows new → field old name type → field new name type
  method_grows : ∀ {old new : Head} {m : Method}, old.Grows new → method old m → method new m

namespace Charter

variable {charter : Charter} {head old new : Head}

def Allows (charter : Charter) (head : Head) : Symbol → Prop
  | .field name type => charter.field head name type
  | .method m => charter.method head m
  | .comment _ | .container _ => True

def Admits (charter : Charter) (head : Head) : Entry → Prop
  | .field name type => charter.field head name type
  | .method m => charter.method head m
  | .specialized _ | .placeholder _ => True

theorem Allows.grows {s : Symbol} (allows : charter.Allows old s) (grows : old.Grows new) :
    charter.Allows new s := by
  cases s with
  | field name type => exact charter.field_grows grows allows
  | method m => exact charter.method_grows grows allows
  | comment text | container c => trivial

/-- A member brings entries to the container around it; a constructor may go to a class instead,
which then is no trait. -/
structure AdmitsMember (charter : Charter) (kind : Kind) (node : Node) : Prop where
  entries : ∀ entry ∈ node.entries, ∀ head : Head, head.key.kind = kind → charter.Admits head entry
  constructor : ∀ s : Signature, node = .constructorMember s → ∀ info : ClassHead,
    info.isTrait = false → charter.Admits (.classOrTrait info) s.constructorEntry

/-- The charter admits everything that these nodes bring as declarations. -/
structure Covers (charter : Charter) (good : Node → Prop) : Prop where
  package : ∀ {name members}, good (.moduleDecl name members) → ∀ node ∈ members, good node
  single : ∀ {node entry}, good node → node.single? = some entry →
    ∀ head : Head, head.key.kind = .package → charter.Admits head entry
  object : ∀ {name members}, good (.varDecl name (some (.objectType members))) →
    ∀ node ∈ members, charter.AdmitsMember .object node
  record : ∀ {name members}, good (.typeDecl name (.objectType members)) →
    ∀ node ∈ members, charter.AdmitsMember .classOrTrait node
  interface : ∀ {name typeParams parents members},
    good (.interfaceDecl name typeParams parents members) →
      (∀ p ∈ typeParams, charter.typeParam (.ofAmbient p)) ∧
      (∀ type ∈ hostTypes parents, charter.parent type) ∧
      ∀ node ∈ members, charter.AdmitsMember .classOrTrait node

end Charter

namespace Container

variable {charter : Charter} {c d new : Container} {k : Key}

/-- A container keeps to a charter in its head and in its members, whatever is inside these. -/
structure Keeps (charter : Charter) (c : Container) : Prop where
  parents : ∀ type ∈ c.head.parents, charter.parent type
  typeParams : ∀ p ∈ c.head.typeParams, charter.typeParam p
  members : ∀ s ∈ c.members, charter.Allows c.head s

def Obeys (c : Container) (charter : Charter) : Prop :=
  ∀ d : Container, d.Inside c → d.Keeps charter

theorem obeys_iff :
    c.Obeys charter ↔ c.Keeps charter ∧ ∀ d, .container d ∈ c.members → d.Obeys charter := by
  constructor
  · intro obeys
    exact ⟨obeys c (.self c), fun d member e inside => obeys e (.member member inside)⟩
  · rintro ⟨keeps, members⟩ e inside
    cases inside with
    | self => exact keeps
    | member member inner => exact members _ member e inner

theorem Obeys.keeps (obeys : c.Obeys charter) : c.Keeps charter := obeys c (.self c)

theorem Obeys.mem (obeys : c.Obeys charter) (member : .container d ∈ c.members) :
    d.Obeys charter := (obeys_iff.mp obeys).2 d member

theorem Obeys.find? (obeys : c.Obeys charter) (found : c.find? k = some d) : d.Obeys charter := by
  obtain ⟨i, _, here⟩ := exists_of_find? found
  exact obeys.mem (List.mem_of_getElem? here)

theorem obeys_fresh (k : Key) : (fresh k).Obeys charter := by
  obtain ⟨kind, name⟩ := k
  cases kind <;> exact obeys_iff.mpr ⟨⟨nofun, nofun, nofun⟩, nofun⟩

/-! ## Changes to one container -/

theorem Obeys.of_members_eq (obeys : c.Obeys charter) (head : d.head = c.head)
    (members : d.members = c.members) : d.Obeys charter := by
  have keeps := obeys.keeps
  refine obeys_iff.mpr ⟨⟨?_, ?_, ?_⟩, ?_⟩
  · rw [head]
    exact keeps.parents
  · rw [head]
    exact keeps.typeParams
  · rw [head, members]
    exact keeps.members
  · rw [members]
    exact fun e => obeys.mem

theorem Obeys.concat {s : Symbol} (obeys : c.Obeys charter) (head : d.head = c.head)
    (members : d.members = c.members ++ [s]) (allowed : charter.Allows c.head s)
    (inner : ∀ e, s = .container e → e.Obeys charter) : d.Obeys charter := by
  have keeps := obeys.keeps
  refine obeys_iff.mpr ⟨⟨?_, ?_, ?_⟩, ?_⟩
  · rw [head]
    exact keeps.parents
  · rw [head]
    exact keeps.typeParams
  · rw [head, members]
    intro t member
    rcases List.mem_append.mp member with old | new
    · exact keeps.members t old
    · exact List.mem_singleton.mp new ▸ allowed
  · rw [members]
    intro e member
    rcases List.mem_append.mp member with old | new
    · exact obeys.mem old
    · exact inner e (List.mem_singleton.mp new).symm

theorem Obeys.enter {entry : Entry} (obeys : c.Obeys charter)
    (admitted : charter.Admits c.head entry) : (c.enter entry).container.Obeys charter := by
  cases entry with
  | field name type =>
    rw [enter_field]
    split
    · exact obeys
    · exact obeys.concat (s := .field name type) rfl rfl admitted nofun
  | method m =>
    rw [enter_method]
    split
    · exact obeys
    · exact obeys.concat (s := .method m) rfl rfl admitted nofun
  | specialized name => exact obeys
  | placeholder node => exact obeys.concat (s := .comment _) rfl rfl trivial nofun

theorem Obeys.enterAll {entries : List Entry} (obeys : c.Obeys charter)
    (admitted : ∀ entry ∈ entries, charter.Admits c.head entry) :
    (c.enterAll entries).container.Obeys charter := by
  induction entries generalizing c with
  | nil => exact obeys
  | cons entry entries ih =>
    refine ih (obeys.enter (admitted entry (.head _))) fun later member => ?_
    rw [head_enter]
    exact admitted later (.tail _ member)

theorem Obeys.replace (obeys : c.Obeys charter) (inner : new.Obeys charter) :
    (c.replace k new).Obeys charter := by
  unfold Container.replace
  split
  · next i _ =>
    have keeps := obeys.keeps
    refine obeys_iff.mpr ⟨⟨keeps.parents, keeps.typeParams, fun s member => ?_⟩, fun e member => ?_⟩
    · rcases List.mem_or_eq_of_mem_set member with old | rfl
      · exact keeps.members s old
      · trivial
    · rcases List.mem_or_eq_of_mem_set member with old | same
      · exact obeys.mem old
      · exact Symbol.container.inj same ▸ inner
  · exact obeys

theorem Obeys.modify {f : Container → Container} (obeys : c.Obeys charter)
    (inner : ∀ d, c.find? k = some d → d.Obeys charter → (f d).Obeys charter) :
    (c.modify k f).Obeys charter := by
  cases found : c.find? k with
  | none =>
    rw [modify_of_absent found]
    exact obeys
  | some d =>
    rw [modify_of_find? found]
    exact obeys.replace (inner d found (obeys.find? found))

theorem Obeys.linkTo (obeys : c.Obeys charter) (k : Key) : (linkTo k c).Obeys charter :=
  obeys.of_members_eq rfl rfl

theorem Obeys.ensure (obeys : c.Obeys charter) (k : Key) : (c.ensure k).Obeys charter := by
  have created : (c.create k).Obeys charter := by
    refine obeys.concat (s := .container (fresh k)) rfl rfl trivial fun e same => ?_
    obtain rfl := Symbol.container.inj same
    exact obeys_fresh k
  unfold Container.ensure
  split
  · exact obeys
  · split
    · exact (created.modify fun d _ inner => inner.linkTo k).modify fun d _ inner => inner.linkTo _
    · exact created

/-- What a class takes on must be allowed; what it has stays allowed. -/
theorem Obeys.modifyClass {f : ClassHead → ClassHead} (obeys : c.Obeys charter)
    (grows : ∀ info : ClassHead, info.Grows (f info))
    (parents : ∀ info : ClassHead, ∀ type ∈ (f info).parents,
      type ∈ info.parents ∨ charter.parent type)
    (typeParams : ∀ info : ClassHead, ∀ p ∈ (f info).typeParams,
      p ∈ info.typeParams ∨ charter.typeParam p) : (modifyClass f c).Obeys charter := by
  unfold Container.modifyClass
  split
  · next info head =>
    have keeps := obeys.keeps
    refine obeys_iff.mpr ⟨⟨fun type member => ?_, fun p member => ?_, fun s member => ?_⟩,
      fun e => obeys.mem⟩
    · rcases parents info type member with old | allowed
      · exact keeps.parents type (by rwa [head])
      · exact allowed
    · rcases typeParams info p member with old | allowed
      · exact keeps.typeParams p (by rwa [head])
      · exact allowed
    · have allowed := keeps.members s member
      rw [head] at allowed
      exact allowed.grows (.classOrTrait (grows info))
  · exact obeys

theorem Obeys.untrait (obeys : c.Obeys charter) : (c.setTrait false).Obeys charter :=
  obeys.modifyClass (·.grows_untrait) (fun _ _ => .inl) fun _ _ => .inl

theorem Obeys.extend (obeys : c.Obeys charter) {typeParams : List TypeParam}
    {parents : List HostType} (params : ∀ p ∈ typeParams, charter.typeParam p)
    (types : ∀ type ∈ parents, charter.parent type) :
    ((c.addParents parents).addTypeParams typeParams).Obeys charter := by
  refine Obeys.modifyClass (obeys.modifyClass (·.grows_addParents parents)
    (fun info type member => ?_) fun info p member => ?_) (fun info => ?_) (fun _ _ => .inl)
    fun info p member => ?_
  · exact ((mem_parents_addParents info parents type).mp member).imp_right (types type)
  · rw [ClassHead.typeParams_addParents] at member
    exact .inl member
  · exact ⟨rfl, List.prefix_append _ _, List.prefix_refl _, .inl rfl⟩
  · exact (List.mem_append.mp member).imp_right (params p)

end Container

/-! ## Bodies -/

namespace Walk

variable {charter : Charter} {w : Walk} {k : Key}

theorem obeys_enterAt {entries : List Entry} (obeys : w.tree.Obeys charter)
    (admitted : ∀ owner, w.tree.find? k = some owner →
      ∀ entry ∈ entries, charter.Admits owner.head entry) :
    (w.enterAt [k] entries).tree.Obeys charter := by
  cases found : w.tree.find? k with
  | none =>
    rw [enterAt_absent found]
    exact obeys
  | some owner =>
    rw [enterAt_key found]
    exact obeys.replace ((obeys.find? found).enterAll (admitted owner found))

theorem obeys_promote {s : Signature} (sound : w.tree.Sound) (obeys : w.tree.Obeys charter)
    (admitted : ∀ info : ClassHead, info.isTrait = false →
      charter.Admits (.classOrTrait info) s.constructorEntry) (x : String) :
    (w.promote [] x s).tree.Obeys charter := by
  obtain ⟨d, found, key⟩ := sound.coherent.exists_find?_ensure ⟨.classOrTrait, x⟩
  obtain ⟨info, head, _⟩ := Head.key_eq_classOrTrait.mp key
  have opened : (w.tree.openClass x).Obeys charter :=
    (obeys.ensure _).modify fun d _ inner => inner.untrait
  rw [promote_nil]
  refine obeys_enterAt (w := { w with tree := w.tree.openClass x }) opened
    fun owner there entry member => ?_
  obtain rfl := List.mem_singleton.mp member
  obtain rfl := Option.some.inj ((Container.find?_modify_self found).symm.trans there)
  have concrete : (d.setTrait false).head = .classOrTrait { info with isTrait := false } := by
    simp only [Container.setTrait, Container.modifyClass, head]
  rw [concrete]
  exact admitted _ rfl

theorem obeys_member {node : Node} (sound : w.tree.Sound) (obeys : w.tree.Obeys charter)
    (admits : charter.AdmitsMember k.kind node) : (w.member ⟨[], [k]⟩ node).tree.Obeys charter := by
  have admitted : ∀ owner, w.tree.find? k = some owner →
      ∀ entry ∈ node.entries, charter.Admits owner.head entry := fun owner found entry member =>
    admits.entries entry member owner.head
      (congrArg Key.kind (sound.coherent.key_of_find? found))
  unfold member
  split
  · next s =>
    obtain ⟨_, name, companion, _, _, promoted⟩ | ⟨companion, left⟩ :=
      constructor_cases w ⟨[], [k]⟩ s
    · rw [promoted]
      exact obeys_promote (w := { w with companion }) sound obeys (admits.constructor s rfl) name
    · rw [left]
      exact obeys_enterAt (w := { w with companion }) obeys admitted
  · exact obeys_enterAt obeys admitted

theorem obeys_members {nodes : List Node} (sound : w.tree.Sound) (obeys : w.tree.Obeys charter)
    (admits : ∀ node ∈ nodes, charter.AdmitsMember k.kind node) :
    (w.members ⟨[], [k]⟩ nodes).tree.Obeys charter := by
  induction nodes generalizing w with
  | nil => exact obeys
  | cons node nodes ih =>
    exact ih ((evolves_member w ⟨[], [k]⟩ node).sound sound)
      (obeys_member sound obeys (admits node (.head _))) fun later listed =>
        admits later (.tail _ listed)

end Walk

namespace Container

variable {charter : Charter} {c : Container} {k : Key} {good : Node → Prop}

theorem Sound.obeys_walkBody {members : List Node} (sound : c.Sound) (obeys : c.Obeys charter)
    (admits : ∀ node ∈ members, charter.AdmitsMember k.kind node) :
    (c.walkBody ⟨[], [k]⟩ members).container.Obeys charter :=
  Walk.obeys_members (w := { tree := c }) sound obeys admits

theorem Sound.obeys_fill {members : List Node} (sound : c.Sound) (obeys : c.Obeys charter)
    (admits : ∀ node ∈ members, charter.AdmitsMember k.kind node) :
    (c.fill k members).container.Obeys charter :=
  (sound.ensure k).obeys_walkBody (obeys.ensure k) admits

/-! ## Declarations -/

theorem Sound.obeys_declare_flat (sound : c.Sound) (package : c.isPackage = true)
    (obeys : c.Obeys charter) (covers : charter.Covers good) {node : Node} (fit : good node)
    (flat : ∀ name members, node ≠ .moduleDecl name members) :
    (c.declare node).container.Obeys charter := by
  cases node.form with
  | package name members => exact absurd rfl (flat name members)
  | object name members => exact sound.obeys_fill obeys (covers.object fit)
  | record name members => exact sound.obeys_fill obeys (covers.record fit)
  | interface name typeParams parents members =>
    obtain ⟨params, types, bodies⟩ := covers.interface fit
    have extended : (c.extendClass name.text (typeParams.map .ofAmbient) (hostTypes parents)).Obeys
        charter := by
      refine (obeys.ensure _).modify fun d _ inner => inner.extend (fun p member => ?_) types
      obtain ⟨q, listed, rfl⟩ := List.mem_map.mp member
      exact params q listed
    simp only [declare, declareInterface_eq]
    exact ((evolves_extendClass c _ _ _).sound sound).obeys_walkBody extended bodies
  | single single =>
    rw [declare_single single]
    exact obeys.enter (covers.single fit single c.head (eq_of_beq package))

mutual

theorem Sound.obeys_declare {c : Container} (sound : c.Sound) (package : c.isPackage = true)
    (obeys : c.Obeys charter) (covers : charter.Covers good) (node : Node) (fit : good node) :
    (c.declare node).container.Obeys charter := by
  cases node with
  | moduleDecl name members =>
    obtain ⟨inner, found, innerSound, innerPackage⟩ := sound.exists_opened name
    simp only [declare, package, found, ↓reduceIte]
    have opened := obeys.ensure ⟨.package, name⟩
    exact opened.replace (innerSound.obeys_declareAll innerPackage (opened.find? found) covers
      members (covers.package fit))
  | _ => exact sound.obeys_declare_flat package obeys covers fit nofun

theorem Sound.obeys_declareAll {c : Container} (sound : c.Sound) (package : c.isPackage = true)
    (obeys : c.Obeys charter) (covers : charter.Covers good) (nodes : List Node)
    (fit : ∀ node ∈ nodes, good node) : (c.declareAll nodes).container.Obeys charter := by
  cases nodes with
  | nil => exact obeys
  | cons node nodes =>
    have evolves := evolves_declare c node
    rw [declareAll_cons sound package]
    exact (evolves.sound sound).obeys_declareAll (evolves.isPackage.trans package)
      (sound.obeys_declare package obeys covers node (fit node (.head _))) covers nodes
      fun later member => fit later (.tail _ member)

end

end Container

/-- The tree of declarations that a charter covers keeps to it throughout. -/
theorem obeys_importTree {charter : Charter} {good : Node → Prop} (covers : charter.Covers good)
    {declarations : List Node} (fit : ∀ node ∈ declarations, good node) :
    (importTree declarations).container.Obeys charter :=
  Container.sound_root.obeys_declareAll rfl (Container.obeys_fresh _) covers declarations fit

end Facade
