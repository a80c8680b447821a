import Facade.Proofs.Nesting

/-! Two packages side by side. Where they hold the same under some keys, and the operations
under these keys keep them related, a declaration under these keys keeps them related as a
whole and calls for the same notes in both. -/
namespace Facade
open Ambient (Node Signature)

/-- A relation between packages that the operations under some keys respect, and entries of
some sort at the top. -/
structure Simulation (keys : Key → Prop) (entries : Entry → Prop) where
  rel : Container → Container → Prop
  left {c d : Container} : rel c d → c.Sound
  right {c d : Container} : rel c d → d.Sound
  package {c d : Container} : rel c d → c.isPackage = d.isPackage
  paired {j k : Key} : k.companion? = some j → keys k → keys j
  find? {c d : Container} {k : Key} : rel c d → keys k → c.find? k = d.find? k
  replace {c d old new : Container} {k : Key} : rel c d → keys k → c.find? k = some old →
    old.Evolves new → rel (c.replace k new) (d.replace k new)
  ensure {c d : Container} {k : Key} : rel c d → keys k → rel (c.ensure k) (d.ensure k)
  enter {c d : Container} {entry : Entry} : rel c d → entries entry →
    rel (c.enter entry).container (d.enter entry).container ∧
      (c.enter entry).notes = (d.enter entry).notes

namespace Simulation

variable {keys : Key → Prop} {entries : Entry → Prop} (sim : Simulation keys entries)
variable {c d : Container} {w v : Walk} {k : Key}

/-- Two edits with the same notes. -/
def Edits (first second : Edit) : Prop :=
  sim.rel first.container second.container ∧ first.notes = second.notes

structure Walks (w v : Walk) : Prop where
  tree : sim.rel w.tree v.tree
  notes : w.notes = v.notes
  companion : w.companion = v.companion

variable {sim}

theorem modify (related : sim.rel c d) (inside : keys k) {f : Container → Container}
    (evolves : ∀ e : Container, e.Evolves (f e)) : sim.rel (c.modify k f) (d.modify k f) := by
  have same := sim.find? related inside
  cases found : c.find? k with
  | none =>
    rw [Container.modify_of_absent found, Container.modify_of_absent (same.symm.trans found)]
    exact related
  | some e =>
    rw [Container.modify_of_find? found, Container.modify_of_find? (same.symm.trans found)]
    exact sim.replace related inside found (evolves e)

theorem Walks.enterAt (walks : sim.Walks w v) (inside : keys k) (entries : List Entry) :
    sim.Walks (w.enterAt [k] entries) (v.enterAt [k] entries) := by
  have same := sim.find? walks.tree inside
  cases found : w.tree.find? k with
  | none =>
    rw [Walk.enterAt_absent found, Walk.enterAt_absent (same.symm.trans found)]
    exact walks
  | some owner =>
    rw [Walk.enterAt_key found, Walk.enterAt_key (same.symm.trans found)]
    exact ⟨sim.replace walks.tree inside found (Container.evolves_enterAll owner entries),
      congrArg (· ++ _) walks.notes, walks.companion⟩

theorem Walks.promote (walks : sim.Walks w v) {name : String} (inside : keys ⟨.classOrTrait, name⟩)
    (signature : Signature) :
    sim.Walks (w.promote [] name signature) (v.promote [] name signature) := by
  have opened : sim.Walks { w with tree := w.tree.openClass name }
      { v with tree := v.tree.openClass name } :=
    ⟨modify (sim.ensure walks.tree inside) inside (Container.evolves_setTrait · false),
      walks.notes, walks.companion⟩
  rw [Walk.promote_nil, Walk.promote_nil]
  exact opened.enterAt inside _

theorem companionReference (related : sim.rel c d) {name : String}
    (inside : keys ⟨.classOrTrait, name⟩) :
    c.companionReference name = d.companionReference name := by
  simp only [Container.companionReference, sim.find? related inside]

theorem Walks.constructor (walks : sim.Walks w v) (inside : keys k) (signature : Signature) :
    sim.Walks (w.constructor ⟨[], [k]⟩ signature) (v.constructor ⟨[], [k]⟩ signature) := by
  have same := sim.find? walks.tree inside
  unfold Walk.constructor
  simp only [Container.get?_key, ← same]
  cases found : w.tree.find? k with
  | none => exact walks.enterAt inside _
  | some owner =>
    have key := (sim.left walks.tree).coherent.key_of_find? found
    cases head : owner.head with
    | package _ | classOrTrait _ =>
      simp only [Option.map_some, head]
      exact walks.enterAt inside _
    | object name =>
      have own : k = ⟨.object, name⟩ := by
        rw [← key, Container.key, head]
        rfl
      have companion : keys ⟨.classOrTrait, name⟩ := sim.paired (own ▸ rfl) inside
      have reference := companionReference walks.tree companion
      simp only [Container.get?, Option.map_some, head, ← walks.companion, ← reference]
      have kept : sim.Walks
          { w with companion := some (w.companion.getD (w.tree.companionReference name)) }
          { v with companion := some (w.companion.getD (w.tree.companionReference name)) } :=
        ⟨walks.tree, walks.notes, rfl⟩
      split
      · exact kept.promote companion signature
      · exact kept.enterAt inside _

theorem Walks.member (walks : sim.Walks w v) (inside : keys k) (node : Node) :
    sim.Walks (w.member ⟨[], [k]⟩ node) (v.member ⟨[], [k]⟩ node) := by
  unfold Walk.member
  split
  · exact walks.constructor inside _
  · exact walks.enterAt inside _

theorem Walks.members (walks : sim.Walks w v) (inside : keys k) (nodes : List Node) :
    sim.Walks (w.members ⟨[], [k]⟩ nodes) (v.members ⟨[], [k]⟩ nodes) := by
  induction nodes generalizing w v with
  | nil => exact walks
  | cons node nodes ih => exact ih (walks.member inside node)

theorem walkBody (related : sim.rel c d) (inside : keys k) (members : List Node) :
    sim.Edits (c.walkBody ⟨[], [k]⟩ members) (d.walkBody ⟨[], [k]⟩ members) := by
  have begun : sim.Walks { tree := c } { tree := d } := ⟨related, rfl, rfl⟩
  have ended := begun.members inside members
  exact ⟨ended.tree, ended.notes⟩

theorem fill (related : sim.rel c d) (inside : keys k) (members : List Node) :
    sim.Edits (c.fill k members) (d.fill k members) :=
  walkBody (sim.ensure related inside) inside members

theorem declareInterface (related : sim.rel c d) {name : String}
    (inside : keys ⟨.classOrTrait, name⟩) (typeParams : List TypeParam) (parents : List HostType)
    (members : List Node) :
    sim.Edits (c.declareInterface name typeParams parents members)
      (d.declareInterface name typeParams parents members) := by
  have extended : sim.rel (c.extendClass name typeParams parents)
      (d.extendClass name typeParams parents) :=
    modify (sim.ensure related inside) inside fun e =>
      Container.evolves_extended e typeParams parents
  rw [Container.declareInterface_eq, Container.declareInterface_eq]
  exact walkBody extended inside members

variable (sim)

/-- What stands inside a namespace is the same on both sides, and so both work on it alike. -/
theorem declare (related : sim.rel c d) (package : c.isPackage = true) {node : Node}
    (opened : ∀ k, node.opened? = some k → keys k)
    (single : ∀ entry, node.single? = some entry → entries entry) :
    sim.Edits (c.declare node).toEdit (d.declare node).toEdit := by
  cases node.form with
  | package name members =>
    have inside := opened _ rfl
    have grown := sim.ensure related inside
    have same := sim.find? grown inside
    obtain ⟨inner, found, evolves, done⟩ :=
      (sim.left related).declare_moduleDecl package name members
    obtain ⟨inner', found', _, done'⟩ := (sim.right related).declare_moduleDecl
      ((sim.package related).symm.trans package) name members
    obtain rfl := Option.some.inj (found.symm.trans (same.trans found'))
    rw [done, done']
    exact ⟨sim.replace grown inside found evolves, rfl⟩
  | object name members => exact fill related (opened _ rfl) members
  | record name members => exact fill related (opened _ rfl) members
  | interface name typeParams parents members =>
    exact declareInterface related (opened _ rfl) _ _ members
  | single brought =>
    rw [Container.declare_single brought, Container.declare_single brought]
    exact sim.enter related (single _ brought)

theorem declareAll (related : sim.rel c d) (package : c.isPackage = true) {nodes : List Node}
    (opened : ∀ node ∈ nodes, ∀ k, node.opened? = some k → keys k)
    (single : ∀ node ∈ nodes, ∀ entry, node.single? = some entry → entries entry) :
    sim.Edits (c.declareAll nodes).toEdit (d.declareAll nodes).toEdit := by
  induction nodes generalizing c d with
  | nil => exact ⟨related, rfl⟩
  | cons node nodes ih =>
    have here : node ∈ node :: nodes := .head _
    have first := sim.declare related package (opened node here) (single node here)
    have package₁ := (Container.evolves_declare c node).isPackage.trans package
    have rest := ih first.1 package₁ (fun other later => opened other (.tail _ later))
      (fun other later => single other (.tail _ later))
    rw [Container.declareAll_cons (sim.left related) package,
      Container.declareAll_cons (sim.right related) ((sim.package related).symm.trans package)]
    have notes := congr (congrArg (· ++ ·) first.2) rest.2
    exact ⟨rest.1, notes⟩

end Simulation
end Facade
