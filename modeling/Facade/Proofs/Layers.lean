import Facade.Proofs.Coherence
import Facade.Proofs.Development

/-! Namespaces go into packages only. Anywhere else a namespace is refused before anything is
done about it, and this is the only fault there is. In an imported tree nothing but packages
has containers inside, so that no declaration comes to stand anywhere else. -/
namespace Facade
open Ambient (Node)

namespace Container

variable {c d new old : Container} {k : Key}

/-! ## The one fault -/

theorem declare_misnested (outside : c.isPackage = false) (name : String) (members : List Node) :
    c.declare (.moduleDecl name members) =
      { container := c, notes := [.misnested name c.title], fault := some ⟨name, c.title⟩ } := by
  simp only [declare, outside, Bool.false_eq_true, ↓reduceIte]

theorem fault_declare_flat (c : Container) {node : Node}
    (flat : ∀ name members, node ≠ .moduleDecl name members) : (c.declare node).fault = none := by
  cases node.form with
  | package name members => exact absurd rfl (flat name members)
  | object name members | record name members => rfl
  | interface name typeParams parents members => rfl
  | single single => rw [declare_single single]

theorem Sound.isSome_fault_declare (sound : c.Sound) (node : Node) :
    (c.declare node).fault.isSome = true ↔
      (∃ name members, node = .moduleDecl name members) ∧ c.isPackage = false := by
  cases package : c.isPackage with
  | true => simp only [fault_declare sound package, Option.isSome_none, Bool.true_eq_false,
      and_false, Bool.false_eq_true]
  | false =>
    simp only [and_true]
    constructor
    · intro faulted
      by_cases namespaced : ∃ name members, node = .moduleDecl name members
      · exact namespaced
      · have flat := fault_declare_flat c fun name members same => namespaced ⟨name, members, same⟩
        exact absurd flat (Option.isSome_iff_ne_none.mp faulted)
    · rintro ⟨name, members, rfl⟩
      rw [declare_misnested package]
      rfl

/-- A fault leaves everything as it was, up to the note on it. -/
theorem Sound.eq_of_fault (sound : c.Sound) {node : Node} {fault : Misnested}
    (faulted : (c.declare node).fault = some fault) :
    c.declare node =
      { container := c, notes := [.misnested fault.name fault.owner], fault := some fault } ∧
    fault.owner = c.title := by
  have some : (c.declare node).fault.isSome = true := by rw [faulted]; rfl
  obtain ⟨⟨name, members, rfl⟩, outside⟩ := (sound.isSome_fault_declare node).mp some
  rw [declare_misnested outside] at faulted ⊢
  obtain rfl := Option.some.inj faulted
  exact ⟨rfl, rfl⟩

/-! ## Layers -/

/-- Packages may have containers inside, and nothing else has, at any depth. -/
def Layered (c : Container) : Prop :=
  ∀ d : Container, d.Inside c → d.isPackage = true ∨ ∀ s ∈ d.members, s.isContainer = false

theorem layered_iff : c.Layered ↔
    (c.isPackage = true ∨ ∀ s ∈ c.members, s.isContainer = false) ∧
      ∀ d, .container d ∈ c.members → d.Layered := by
  constructor
  · intro layered
    exact ⟨layered c (.self c), fun d member e inside => layered e (.member member inside)⟩
  · rintro ⟨own, members⟩ e inside
    cases inside with
    | self => exact own
    | member member inner => exact members _ member e inner

theorem Layered.of_members_eq (layered : c.Layered) (members : d.members = c.members)
    (package : d.isPackage = c.isPackage) : d.Layered := by
  rw [layered_iff] at layered ⊢
  rwa [members, package]

theorem layered_fresh (k : Key) : (fresh k).Layered :=
  layered_iff.mpr ⟨.inr (by simp [fresh]), by simp [fresh]⟩

theorem Layered.concat (layered : c.Layered) {s : Symbol} (leaf : s.isContainer = false)
    (members : d.members = c.members ++ [s]) (package : d.isPackage = c.isPackage) :
    d.Layered := by
  obtain ⟨own, inner⟩ := layered_iff.mp layered
  refine layered_iff.mpr ⟨?_, ?_⟩
  · rw [package]
    refine own.imp_right fun leaves t member => ?_
    rw [members] at member
    rcases List.mem_append.mp member with there | last
    · exact leaves t there
    · obtain rfl := List.mem_singleton.mp last
      exact leaf
  · intro e member
    rw [members] at member
    rcases List.mem_append.mp member with there | last
    · exact inner e there
    · obtain rfl := List.mem_singleton.mp last
      contradiction

theorem Layered.modifyClass (layered : c.Layered) (f : ClassHead → ClassHead) :
    (modifyClass f c).Layered := by
  unfold Container.modifyClass
  split
  · next info head =>
    refine layered.of_members_eq rfl ?_
    simp only [isPackage, kind, key, head, Head.key]
  · exact layered

/-- Making a container, and linking it, leaves what the others contain. -/
theorem Indexed.mem_ensure (indexed : c.Indexed) (member : .container d ∈ (c.ensure k).members) :
    ∃ e, (.container e ∈ c.members ∨ e = fresh k) ∧ d.head = e.head ∧ d.members = e.members := by
  cases placed : c.place? k with
  | some i =>
    rw [ensure_of_place? placed] at member
    exact ⟨d, .inl member, rfl, rfl⟩
  | none =>
    cases met : c.partner? k with
    | none =>
      rw [ensure_alone placed met] at member
      exact ⟨d, mem_create.mp member, rfl, rfl⟩
    | some j =>
      have made := indexed.create placed
      rw [ensure_linked placed met] at member
      rcases (made.linkOne j k).mem_modify member with ⟨e, outer, _, rfl⟩ | ⟨outer, _⟩
      · rcases made.mem_modify outer with ⟨e', inner, _, rfl⟩ | ⟨inner, _⟩
        · exact ⟨e', mem_create.mp inner, rfl, rfl⟩
        · exact ⟨e, mem_create.mp inner, rfl, rfl⟩
      · rcases made.mem_modify outer with ⟨e', inner, _, rfl⟩ | ⟨inner, _⟩
        · exact ⟨e', mem_create.mp inner, rfl, rfl⟩
        · exact ⟨d, mem_create.mp inner, rfl, rfl⟩

theorem Layered.ensure (layered : c.Layered) (indexed : c.Indexed) (package : c.isPackage = true)
    (k : Key) : (c.ensure k).Layered := by
  refine layered_iff.mpr ⟨.inl ((evolves_ensure c k).isPackage.trans package), ?_⟩
  intro d member
  obtain ⟨e, origin, head, members⟩ := indexed.mem_ensure member
  have inner : e.Layered := by
    rcases origin with there | rfl
    · exact (layered_iff.mp layered).2 e there
    · exact layered_fresh k
  exact inner.of_members_eq members (by simp only [isPackage, kind, key, head])

theorem Layered.replace (layered : c.Layered) (indexed : c.Indexed)
    (found : c.find? k = some old) (inner : new.Layered) : (c.replace k new).Layered := by
  obtain ⟨own, members⟩ := layered_iff.mp layered
  refine layered_iff.mpr ⟨?_, ?_⟩
  · rcases own with package | leaves
    · left
      simp only [isPackage, kind, key, head_replace]
      exact package
    · have leaf := leaves _ (indexed.find?_eq_some.mp found).1
      contradiction
  · intro d member
    rw [indexed.members_replace found] at member
    obtain ⟨s, here, same⟩ := List.mem_map.mp member
    cases s with
    | container e =>
      simp only [Symbol.supplant, Symbol.container.injEq] at same
      split at same
      · exact same ▸ inner
      · exact same ▸ members e here
    | comment text | field name type | method m => contradiction

theorem Develops.layered (develops : c.Develops d) (sound : c.Sound) (layered : c.Layered) :
    d.Layered := by
  induction develops with
  | refl c => exact layered
  | trans first _ before after =>
    exact after (first.evolves.sound sound) (before sound layered)
  | comment c text => exact layered.concat (s := .comment text) rfl rfl rfl
  | @field _ name type absent => exact layered.concat (s := .field name type) rfl rfl rfl
  | @method _ m absent => exact layered.concat (s := .method m) rfl rfl rfl
  | parents c types => exact layered.modifyClass _
  | typeParams c params => exact layered.modifyClass _
  | untrait c => exact layered.modifyClass _
  | ensure k package => exact layered.ensure sound.coherent.toIndexed package k
  | inside found _ inner =>
    have member := (sound.coherent.find?_eq_some.mp found).1
    exact layered.replace sound.coherent.toIndexed found
      (inner (sound.find? found) ((layered_iff.mp layered).2 _ member))

end Container

theorem layered_importTree (declarations : List Node) :
    (importTree declarations).container.Layered :=
  (Container.develops_declareAll Container.sound_root rfl declarations).layered
    Container.sound_root (Container.layered_fresh _)

/-- Wherever a declaration is made while a tree is being built, it faults exactly if it is a
namespace and does not stand in a package. The tree is then as it was, and one note tells of the
fault. An import never faults, and in its tree nothing but packages has containers inside. -/
theorem faults_exactly_misnested :
    (∀ (s : Session) (place : Path) (c : Container) (node : Node),
      Container.Reachable s.tree → s.tree.get? place = some c →
      ∃ after answered, s.perform? place (.change (.declare node)) = some (after, answered) ∧
        (answered.fault.isSome = true ↔
          (∃ name members, node = .moduleDecl name members) ∧ c.isPackage = false) ∧
        ∀ fault, answered.fault = some fault →
          fault.owner = c.title ∧ after.tree = s.tree ∧
            after.report.notes = s.report.notes ++ [.misnested fault.name fault.owner]) ∧
    ∀ declarations : List Node,
      (importTree declarations).fault = none ∧
        ∀ d : Container, d.Inside (importTree declarations).container →
          d.isPackage = true ∨ ∀ member ∈ d.members, member.isContainer = false := by
  constructor
  · intro s place c node reached found
    have sound : c.Sound := reached.sound.of_get? found
    simp only [Session.perform?, Container.step?_declare found, Option.map_some]
    refine ⟨_, _, rfl, sound.isSome_fault_declare node, ?_⟩
    intro fault faulted
    obtain ⟨whole, owner⟩ := sound.eq_of_fault faulted
    simp only [whole, Container.put_self found, Report.notes_noteAll]
    exact ⟨owner, trivial, trivial⟩
  · intro declarations
    exact ⟨fault_importTree declarations, layered_importTree declarations⟩

/-- A namespace with something in it, declared in a class. -/
theorem misnested_in_class :
    let tree := (Container.root.apply (.ensure ⟨.classOrTrait, "C"⟩)).container
    let s : Session := ⟨tree, { verbose := false }⟩
    ∃ after answered fault, s.perform? [⟨.classOrTrait, "C"⟩]
        (.change (.declare (.moduleDecl "n" [.varDecl "x" none]))) = some (after, answered) ∧
      answered.fault = some fault ∧ after.tree = tree ∧
      after.report.notes = [.misnested fault.name "trait C"] := by
  intro tree s
  have reached : Container.Reachable tree :=
    .step [] (.change (.ensure ⟨.classOrTrait, "C"⟩)) .root rfl
  obtain ⟨after, answered, performed, exactly, unchanged⟩ := faults_exactly_misnested.1 s
    [⟨.classOrTrait, "C"⟩] _ (.moduleDecl "n" [.varDecl "x" none]) reached rfl
  obtain ⟨fault, faulted⟩ := Option.isSome_iff_exists.mp (exactly.mpr ⟨⟨_, _, rfl⟩, rfl⟩)
  obtain ⟨owner, same, notes⟩ := unchanged fault faulted
  have title : fault.owner = "trait C" := owner.trans (by decide)
  refine ⟨after, answered, fault, performed, faulted, same, ?_⟩
  rw [notes, title]
  rfl

end Facade
