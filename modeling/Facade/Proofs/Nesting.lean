import Facade.Proofs.Evolution

/-! A namespace is misnested only outside packages. What a package contains under the key of a
package is a package again, so no declaration faults at any depth below one. -/
namespace Facade
open Ambient (Node)

namespace Container

variable {c d : Container} {k : Key}

theorem isPackage_of_key (key : d.key = k) (package : k.kind = .package) :
    d.isPackage = true := by
  simp only [isPackage, kind, key, package, beq_self_eq_true]

/-- The namespace of a name, as it is opened in a package. -/
theorem Sound.exists_opened (sound : c.Sound) (name : String) :
    ∃ package, (c.ensure ⟨.package, name⟩).find? ⟨.package, name⟩ = some package ∧
      package.Sound ∧ package.isPackage = true := by
  obtain ⟨package, found, key⟩ := sound.coherent.exists_find?_ensure ⟨.package, name⟩
  have opened := (evolves_ensure c ⟨.package, name⟩).sound sound
  exact ⟨package, found, opened.find? found, isPackage_of_key key rfl⟩

/-- A package opens the namespace of a name, works inside it, and is done. -/
theorem Sound.declare_moduleDecl (sound : c.Sound) (package : c.isPackage = true) (name : String)
    (members : List Node) :
    ∃ inner, (c.ensure ⟨.package, name⟩).find? ⟨.package, name⟩ = some inner ∧
      inner.Evolves (inner.declareAll members).container ∧
      c.declare (.moduleDecl name members) =
        { inner.declareAll members with
          container := (c.ensure ⟨.package, name⟩).replace ⟨.package, name⟩
            (inner.declareAll members).container } := by
  obtain ⟨inner, found, _⟩ := sound.exists_opened name
  refine ⟨inner, found, evolves_declareAll inner members, ?_⟩
  simp only [declare, package, found, ↓reduceIte]

mutual

theorem fault_declare {c : Container} (sound : c.Sound) (package : c.isPackage = true)
    (node : Node) : (c.declare node).fault = none := by
  cases node with
  | moduleDecl name members =>
    obtain ⟨inner, found, innerSound, innerPackage⟩ := sound.exists_opened name
    simp only [declare, package, found]
    exact fault_declareAll innerSound innerPackage members
  | varDecl name type =>
    cases type with
    | none => rfl
    | some type => cases type <;> rfl
  | typeDecl name type => cases type <;> rfl
  | _ => rfl

theorem fault_declareAll {c : Container} (sound : c.Sound) (package : c.isPackage = true)
    (nodes : List Node) : (c.declareAll nodes).fault = none := by
  cases nodes with
  | nil => rfl
  | cons node nodes =>
    have evolves := evolves_declare c node
    simp only [declareAll, fault_declare sound package node]
    exact fault_declareAll (evolves.sound sound) (evolves.isPackage.trans package) nodes

end

/-- In a package the declarations of a list simply follow one another. -/
theorem declareAll_cons (sound : c.Sound) (package : c.isPackage = true) (node : Node)
    (nodes : List Node) :
    c.declareAll (node :: nodes) =
      let first := c.declare node
      let rest := first.container.declareAll nodes
      { rest with notes := first.notes ++ rest.notes } := by
  simp only [declareAll, fault_declare sound package node]

theorem declareAll_singleton (sound : c.Sound) (package : c.isPackage = true) (node : Node) :
    c.declareAll [node] = c.declare node := by
  have whole := fault_declare sound package node
  simp only [declareAll, whole, List.append_nil]
  rw [← whole]

theorem declareAll_append (sound : c.Sound) (package : c.isPackage = true)
    (first second : List Node) :
    c.declareAll (first ++ second) =
      let before := c.declareAll first
      let after := before.container.declareAll second
      { after with notes := before.notes ++ after.notes } := by
  induction first generalizing c with
  | nil => simp only [List.nil_append, declareAll]
  | cons node first ih =>
    have evolves := evolves_declare c node
    have rest := ih (evolves.sound sound) (evolves.isPackage.trans package)
    simp only [List.cons_append, declareAll_cons sound package, rest, List.append_assoc]

/-- What a declaration opens is there afterwards. -/
theorem Sound.exists_find?_declare (sound : c.Sound) (package : c.isPackage = true) {node : Node}
    (opened : node.opened? = some k) : ∃ d, (c.declare node).container.find? k = some d := by
  have filled : ∀ members, ∃ d, (c.fill k members).container.find? k = some d := by
    intro members
    obtain ⟨_, made, _⟩ := sound.coherent.exists_find?_ensure k
    exact (evolves_walkBody _ _ members).find? (sound.ensure k) made
  cases node.form with
  | package name members =>
    obtain rfl := Option.some.inj opened
    obtain ⟨inner, found, _, done⟩ := sound.declare_moduleDecl package name members
    rw [done]
    exact ⟨_, find?_replace_self found⟩
  | object name members | record name members =>
    obtain rfl := Option.some.inj opened
    exact filled members
  | interface name typeParams parents members =>
    obtain rfl := Option.some.inj opened
    obtain ⟨_, made⟩ := sound.coherent.exists_find?_extendClass name.text
      (typeParams.map .ofAmbient) (hostTypes parents)
    have extended := evolves_extendClass c name.text (typeParams.map .ofAmbient)
      (hostTypes parents)
    simp only [declare, declareInterface_eq]
    exact (evolves_walkBody _ _ members).find? (extended.sound sound) made
  | single single =>
    rw [Ambient.Node.opened?_single single] at opened
    contradiction

theorem Sound.exists_find?_declareAll (sound : c.Sound) (package : c.isPackage = true)
    {nodes : List Node} (opened : k ∈ nodes.filterMap (·.opened?)) :
    ∃ d, (c.declareAll nodes).container.find? k = some d := by
  obtain ⟨node, member, own⟩ := List.mem_filterMap.mp opened
  obtain ⟨before, after, rfl⟩ := List.append_of_mem member
  have first := evolves_declareAll c before
  have sound₁ := first.sound sound
  have package₁ := first.isPackage.trans package
  have sound₂ := (evolves_declare (c.declareAll before).container node).sound sound₁
  obtain ⟨_, made⟩ := sound₁.exists_find?_declare package₁ own
  simp only [declareAll_append sound package, declareAll_cons sound₁ package₁]
  exact (evolves_declareAll _ after).find? sound₂ made

theorem sound_root : root.Sound := sound_fresh _

end Container

theorem fault_importTree (declarations : List Node) : (importTree declarations).fault = none :=
  Container.fault_declareAll Container.sound_root rfl declarations

theorem sound_importTree (declarations : List Node) : (importTree declarations).container.Sound :=
  (Container.evolves_declareAll .root declarations).sound Container.sound_root

theorem isPackage_importTree (declarations : List Node) :
    (importTree declarations).container.isPackage = true :=
  (Container.evolves_declareAll .root declarations).isPackage.trans rfl

end Facade
