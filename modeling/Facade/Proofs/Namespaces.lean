import Facade.Proofs.Parameters
import Facade.Proofs.Reopening

/-! A namespace holds exactly what is declared in it, wherever and however often it is opened.
Its package is built from the bodies of all its openings, one after the other, and nothing that
is declared elsewhere takes part in it. -/
namespace Facade
open Ambient (Node)

/-- The body of a declaration that opens the namespace of a name. -/
def Ambient.Node.bodyOf (name : String) : Node → List Node
  | .moduleDecl other members => if other = name then members else []
  | _ => []

/-- What is declared in the namespace at a path of names, over all its openings. -/
def declaredIn : List String → List Node → List Node
  | [], nodes => nodes
  | name :: names, nodes => declaredIn names (nodes.flatMap (·.bodyOf name))

theorem Ambient.Node.bodyOf_eq_nil {node : Node} {name : String}
    (apart : node.opened? ≠ some ⟨.package, name⟩) : node.bodyOf name = [] := by
  cases node with
  | moduleDecl other members =>
    refine if_neg fun same => apart ?_
    rw [same, opened?]
  | _ => rfl

namespace Container

variable {c d e old new : Container} {j k : Key}

/-- The package of the namespace at a path of names, empty while nothing has opened it. -/
def packageAt (c : Container) : List String → Container
  | [] => c
  | name :: names =>
      ((c.find? ⟨.package, name⟩).getD (fresh ⟨.package, name⟩)).packageAt names

theorem Sound.getD_find? (sound : c.Sound) (name : String) :
    ((c.find? ⟨.package, name⟩).getD (fresh ⟨.package, name⟩)).Sound := by
  cases found : c.find? ⟨.package, name⟩ with
  | none => exact sound_fresh _
  | some d => exact sound.find? found

theorem Indexed.isPackage_getD_find? (indexed : c.Indexed) (name : String) :
    ((c.find? ⟨.package, name⟩).getD (fresh ⟨.package, name⟩)).isPackage = true := by
  cases found : c.find? ⟨.package, name⟩ with
  | none => rfl
  | some d => exact isPackage_of_key (indexed.key_of_find? found) rfl

theorem Sound.of_packageAt (sound : c.Sound) (names : List String) : (c.packageAt names).Sound := by
  induction names generalizing c with
  | nil => exact sound
  | cons name names ih => exact ih (sound.getD_find? name)

theorem Sound.isPackage_packageAt (sound : c.Sound) (package : c.isPackage = true)
    (names : List String) : (c.packageAt names).isPackage = true := by
  induction names generalizing c with
  | nil => exact package
  | cons name names ih =>
    exact ih (sound.getD_find? name) (sound.coherent.isPackage_getD_find? name)

theorem find?_packageAt_fresh (j k : Key) (names : List String) :
    ((fresh j).packageAt names).find? k = none := by
  induction names generalizing j with
  | nil => rfl
  | cons name names ih => exact ih ⟨.package, name⟩

/-- What stands in a namespace is at the path of its names. -/
theorem get?_packageAt (c : Container) (names : List String) (k : Key) :
    c.get? (names.map (Key.mk .package) ++ [k]) = (c.packageAt names).find? k := by
  induction names generalizing c with
  | nil => exact get?_key c k
  | cons name names ih =>
    rw [List.map_cons, List.cons_append, get?, packageAt]
    cases c.find? ⟨.package, name⟩ with
    | none => exact (find?_packageAt_fresh ⟨.package, name⟩ k names).symm
    | some d => exact ih d

/-! ## Beside a namespace -/

/-- A package has no companion, so that it is found as it was made. -/
theorem Indexed.find?_ensure_package (indexed : c.Indexed) (package : k.kind = .package) :
    (c.ensure k).find? k = some ((c.find? k).getD (fresh k)) := by
  cases found : c.find? k with
  | some d => rw [ensure_of_find? found, found, Option.getD_some]
  | none =>
    have absent := indexed.place?_eq_none found
    have alone : c.partner? k = none := by
      cases met : c.partner? k with
      | none => rfl
      | some i => exact absurd (partner?_eq_some.mp met).1 (Key.companion?_package package)
    rw [ensure_alone absent alone, find?_create_self absent, Option.getD_none]

end Container

/-- All keys but that of a namespace, whose package stays as it is. -/
def apartFrom {k : Key} (package : k.kind = .package) (kept : Option Container) :
    Simulation (k ≠ ·) (fun _ => True) where
  rel c d := c = d ∧ c.Sound ∧ c.find? k = kept
  left related := related.2.1
  right related := related.1 ▸ related.2.1
  package related := congrArg Container.isPackage related.1
  paired met _ same := absurd (Key.companion?_symm met) (same ▸ Key.companion?_package package)
  find? related _ := congrArg (Container.find? · _) related.1
  replace := by
    rintro c d old new j ⟨rfl, sound, same⟩ differ found evolves
    exact ⟨rfl, (Container.evolves_replace found evolves).sound sound,
      (sound.coherent.find?_replace_of_ne differ).trans same⟩
  ensure := by
    rintro c d j ⟨rfl, sound, same⟩ differ
    exact ⟨rfl, sound.ensure j,
      (sound.coherent.find?_ensure_of_ne package differ).trans same⟩
  enter := by
    rintro c d entry ⟨rfl, sound, same⟩ -
    exact ⟨⟨rfl, (Container.evolves_enter c entry).sound sound,
      (sound.coherent.find?_enter_eq entry).trans same⟩, rfl⟩

namespace Container

variable {c : Container} {k : Key}

theorem Sound.find?_declare_of_ne (sound : c.Sound) (package : c.isPackage = true) {node : Node}
    (namespaced : k.kind = .package) (apart : node.opened? ≠ some k) :
    (c.declare node).container.find? k = c.find? k :=
  ((apartFrom namespaced (c.find? k)).declare ⟨rfl, sound, rfl⟩ package
    (fun _ opened same => apart (same ▸ opened)) fun _ _ => trivial).1.2.2

/-! ## Inside a namespace -/

theorem Sound.getD_find?_declare (sound : c.Sound) (package : c.isPackage = true)
    (name : String) (node : Node) :
    ((c.declare node).container.find? ⟨.package, name⟩).getD (fresh ⟨.package, name⟩) =
      (((c.find? ⟨.package, name⟩).getD (fresh ⟨.package, name⟩)).declareAll
        (node.bodyOf name)).container := by
  by_cases opened : node.opened? = some ⟨.package, name⟩
  · obtain ⟨members, rfl⟩ := Ambient.Node.eq_moduleDecl opened
    obtain ⟨inner, found, _, done⟩ := sound.declare_moduleDecl package name members
    have before := sound.coherent.find?_ensure_package (k := ⟨.package, name⟩) rfl
    obtain rfl := Option.some.inj (found.symm.trans before)
    rw [done, find?_replace_self found, Option.getD_some, Ambient.Node.bodyOf, if_pos rfl]
  · rw [sound.find?_declare_of_ne package rfl opened, Ambient.Node.bodyOf_eq_nil opened]
    rfl

theorem Sound.getD_find?_declareAll (sound : c.Sound) (package : c.isPackage = true)
    (name : String) (nodes : List Node) :
    ((c.declareAll nodes).container.find? ⟨.package, name⟩).getD (fresh ⟨.package, name⟩) =
      (((c.find? ⟨.package, name⟩).getD (fresh ⟨.package, name⟩)).declareAll
        (nodes.flatMap (·.bodyOf name))).container := by
  induction nodes generalizing c with
  | nil => rfl
  | cons node nodes ih =>
    have evolves := evolves_declare c node
    have rest := ih (evolves.sound sound) (evolves.isPackage.trans package)
    rw [sound.getD_find?_declare package] at rest
    -- Later openings go on with the package as the first one left it.
    have inner := declareAll_append (sound.getD_find? name)
      (sound.coherent.isPackage_getD_find? name) (node.bodyOf name)
      (nodes.flatMap (·.bodyOf name))
    rw [declareAll_cons sound package, List.flatMap_cons, inner]
    exact rest

/-- Declarations come to a namespace as if they stood in it alone. -/
theorem Sound.packageAt_declareAll (sound : c.Sound) (package : c.isPackage = true)
    (names : List String) (nodes : List Node) :
    (c.declareAll nodes).container.packageAt names =
      ((c.packageAt names).declareAll (declaredIn names nodes)).container := by
  induction names generalizing c nodes with
  | nil => rfl
  | cons name names ih =>
    rw [packageAt, sound.getD_find?_declareAll package, packageAt, declaredIn]
    exact ih (sound.getD_find? name) (sound.coherent.isPackage_getD_find? name) _

end Container
end Facade
