import Facade.Proofs.Nesting

/-! Work on a package is a sequence of primitive changes. What each of these keeps, every walk
over a body and every declaration keeps, too. -/
namespace Facade
open Ambient (Node Signature)

namespace Container

/-- A symbol is added last, the head of a class takes something on, a package opens a
container, or something inside develops. -/
inductive Develops : Container → Container → Prop where
  | refl (c : Container) : Develops c c
  | trans {c d e : Container} : Develops c d → Develops d e → Develops c e
  | comment (c : Container) (text : String) : Develops c (c.addComment text)
  | field {c : Container} {name : String} (type : HostType) :
      c.hasField name = false → Develops c (c.addField name type)
  | method {c : Container} {m : Method} :
      c.hasOverload m.overload = false → Develops c (c.addMethod m)
  | parents (c : Container) (types : List HostType) : Develops c (c.addParents types)
  | typeParams (c : Container) (params : List TypeParam) : Develops c (c.addTypeParams params)
  | untrait (c : Container) : Develops c (c.setTrait false)
  | ensure {c : Container} (k : Key) : c.isPackage = true → Develops c (c.ensure k)
  | inside {c old new : Container} {k : Key} :
      c.find? k = some old → Develops old new → Develops c (c.replace k new)

variable {c d : Container} {k : Key}

theorem Develops.evolves (develops : c.Develops d) : c.Evolves d := by
  induction develops with
  | refl c => exact .refl c
  | trans _ _ first second => exact first.trans second
  | comment c text => exact evolves_addComment c text
  | field type absent => exact evolves_addField? (if_neg (Bool.eq_false_iff.mp absent))
  | method absent => exact evolves_addMethod? (if_neg (Bool.eq_false_iff.mp absent))
  | parents c types => exact evolves_addParents c types
  | typeParams c params => exact evolves_addTypeParams c params
  | untrait c => exact evolves_setTrait c false
  | ensure k _ => exact evolves_ensure _ k
  | inside found _ inner => exact evolves_replace found inner

theorem develops_enter (c : Container) (entry : Entry) : c.Develops (c.enter entry).container := by
  cases entry with
  | field name type =>
    rw [enter_field]
    split
    · exact .refl c
    · next absent => exact .field type (Bool.eq_false_iff.mpr absent)
  | method m =>
    rw [enter_method]
    split
    · exact .refl c
    · next absent => exact .method (Bool.eq_false_iff.mpr absent)
  | specialized name => exact .refl c
  | placeholder node => exact .comment c _

theorem develops_enterAll (c : Container) (entries : List Entry) :
    c.Develops (c.enterAll entries).container := by
  induction entries generalizing c with
  | nil => exact .refl c
  | cons entry entries ih => exact (develops_enter c entry).trans (ih _)

theorem develops_modify (c : Container) (k : Key) {f : Container → Container}
    (inner : ∀ d : Container, d.Develops (f d)) : c.Develops (c.modify k f) := by
  cases found : c.find? k with
  | none =>
    rw [modify_of_absent found]
    exact .refl c
  | some d =>
    rw [modify_of_find? found]
    exact .inside found (inner d)

theorem develops_extendClass (package : c.isPackage = true) (name : String)
    (typeParams : List TypeParam) (parents : List HostType) :
    c.Develops (c.extendClass name typeParams parents) :=
  .trans (.ensure _ package) (develops_modify _ _ fun d =>
    .trans (.parents d parents) (.typeParams _ typeParams))

theorem develops_openClass (package : c.isPackage = true) (name : String) :
    c.Develops (c.openClass name) :=
  .trans (.ensure _ package) (develops_modify _ _ .untrait)

end Container

namespace Walk
open Container (Develops)

variable {w : Walk} {k : Key}

theorem develops_enterAt (w : Walk) (k : Key) (entries : List Entry) :
    w.tree.Develops (w.enterAt [k] entries).tree := by
  cases found : w.tree.find? k with
  | none =>
    rw [enterAt_absent found]
    exact .refl _
  | some owner =>
    rw [enterAt_key found]
    exact .inside found (Container.develops_enterAll owner entries)

theorem develops_promote (package : w.tree.isPackage = true) (name : String)
    (signature : Signature) : w.tree.Develops (w.promote [] name signature).tree := by
  rw [promote_nil]
  exact (Container.develops_openClass package name).trans
    (develops_enterAt { w with tree := w.tree.openClass name } _ _)

theorem develops_member (package : w.tree.isPackage = true) (k : Key) (node : Node) :
    w.tree.Develops (w.member ⟨[], [k]⟩ node).tree := by
  unfold member
  split
  · next signature =>
    obtain ⟨_, name, companion, _, _, promoted⟩ | ⟨companion, left⟩ :=
      constructor_cases w ⟨[], [k]⟩ signature
    · rw [promoted]
      exact develops_promote (w := { w with companion }) package name signature
    · rw [left]
      exact develops_enterAt { w with companion } k _
  · exact develops_enterAt w k _

theorem develops_members (package : w.tree.isPackage = true) (k : Key) (nodes : List Node) :
    w.tree.Develops (w.members ⟨[], [k]⟩ nodes).tree := by
  induction nodes generalizing w with
  | nil => exact .refl _
  | cons node nodes ih =>
    have first := develops_member package k node
    exact first.trans (ih (first.evolves.isPackage.trans package))

end Walk

namespace Container

variable {c d : Container} {k : Key}

theorem develops_walkBody (package : c.isPackage = true) (k : Key) (members : List Node) :
    c.Develops (c.walkBody ⟨[], [k]⟩ members).container :=
  Walk.develops_members (w := { tree := c }) package k members

theorem develops_fill (package : c.isPackage = true) (k : Key) (members : List Node) :
    c.Develops (c.fill k members).container :=
  .trans (.ensure k package)
    (develops_walkBody ((evolves_ensure c k).isPackage.trans package) k members)

theorem develops_declareInterface (package : c.isPackage = true) (name : String)
    (typeParams : List TypeParam) (parents : List HostType) (members : List Node) :
    c.Develops (c.declareInterface name typeParams parents members).container := by
  have extended := develops_extendClass package name typeParams parents
  rw [declareInterface_eq]
  exact extended.trans
    (develops_walkBody (extended.evolves.isPackage.trans package) _ members)

theorem develops_declare_flat (package : c.isPackage = true) {node : Node}
    (flat : ∀ name members, node ≠ .moduleDecl name members) :
    c.Develops (c.declare node).container := by
  cases node.form with
  | package name members => exact absurd rfl (flat name members)
  | object name members => exact develops_fill package _ members
  | record name members => exact develops_fill package _ members
  | interface name typeParams parents members =>
    exact develops_declareInterface package _ _ _ members
  | single single =>
    rw [declare_single single]
    exact develops_enter c _

mutual

theorem develops_declare {c : Container} (sound : c.Sound) (package : c.isPackage = true)
    (node : Node) : c.Develops (c.declare node).container := by
  cases node with
  | moduleDecl name members =>
    obtain ⟨inner, found, innerSound, innerPackage⟩ := sound.exists_opened name
    simp only [declare, package, found, ↓reduceIte]
    exact .trans (.ensure _ package)
      (.inside found (develops_declareAll innerSound innerPackage members))
  | _ => exact develops_declare_flat package nofun

theorem develops_declareAll {c : Container} (sound : c.Sound) (package : c.isPackage = true)
    (nodes : List Node) : c.Develops (c.declareAll nodes).container := by
  cases nodes with
  | nil => exact .refl c
  | cons node nodes =>
    have first := develops_declare sound package node
    rw [declareAll_cons sound package]
    exact first.trans (develops_declareAll (first.evolves.sound sound)
      (first.evolves.isPackage.trans package) nodes)

end

end Container
end Facade
