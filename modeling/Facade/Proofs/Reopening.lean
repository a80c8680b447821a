import Facade.Import
import Facade.Proofs.Simulation

/-! Opening a namespace again is the same as writing it once. What a declaration does to one
namespace touches nothing beside it, and nothing beside it reads what the namespace holds. -/
namespace Facade
open Ambient (Node)

theorem Key.companion?_package {j k : Key} (package : k.kind = .package) :
    k.companion? ≠ some j := by
  obtain ⟨kind, name⟩ := k
  obtain rfl : kind = .package := package
  exact nofun

namespace Container

variable {c d e new old : Container} {j k : Key}

theorem Indexed.replace_comm (indexed : c.Indexed) (differ : j ≠ k) :
    (c.replace k new).replace j e = (c.replace j e).replace k new := by
  cases there : c.place? j with
  | none => rw [replace_of_absent there, replace_of_absent (place?_replace.trans there)]
  | some n =>
    cases placed : c.place? k with
    | none => rw [replace_of_absent placed, replace_of_absent (place?_replace.trans placed)]
    | some i =>
      have apart : i ≠ n := by
        rintro rfl
        exact differ (indexed.place?_injective there placed)
      rw [replace_of_place? (place?_replace.trans there),
        replace_of_place? (place?_replace.trans placed), replace_of_place? there,
        replace_of_place? placed]
      simp only [List.set_comm _ _ apart]

theorem Indexed.modify_replace (indexed : c.Indexed) (differ : j ≠ k)
    (f : Container → Container) : (c.replace k new).modify j f = (c.modify j f).replace k new := by
  have same : (c.replace k new).find? j = c.find? j := indexed.find?_replace_of_ne differ
  cases found : c.find? j with
  | none => rw [modify_of_absent found, modify_of_absent (same.trans found)]
  | some e =>
    rw [modify_of_find? found, modify_of_find? (same.trans found), indexed.replace_comm differ]

/-- What comes last leaves the places of the others as they are. -/
theorem grown_replace (found : c.find? k = some old) (s : Symbol) {index : Index}
    (kept : index.containers.lookup k = c.place? k) :
    { (c.replace k new).append s with index } = { c.append s with index }.replace k new := by
  obtain ⟨i, placed, here⟩ := exists_of_find? found
  have bound : i < c.members.length := (List.getElem?_eq_some_iff.mp here).1
  have placed' : { c.append s with index }.place? k = some i := kept.trans placed
  rw [replace_of_place? placed, replace_of_place? placed']
  simp only [append, List.set_append_left _ _ bound]

theorem create_replace (found : c.find? k = some old) (differ : j ≠ k) :
    (c.replace k new).create j = (c.create j).replace k new := by
  obtain ⟨i, placed, _⟩ := exists_of_find? found
  refine Eq.trans ?_ (grown_replace found (.container (fresh j)) (place?_create_of_ne differ.symm))
  simp only [create, append, replace_of_place? placed, List.length_set]

theorem Indexed.link_replace (indexed : c.Indexed) {i : Key} (first : i ≠ k) (second : j ≠ k) :
    (c.replace k new).link i j = (c.link i j).replace k new := by
  unfold link
  rw [indexed.modify_replace first, (indexed.linkOne i j).modify_replace second]

theorem Indexed.find?_link_of_ne (indexed : c.Indexed) {i : Key} (first : i ≠ k)
    (second : j ≠ k) : (c.link i j).find? k = c.find? k := by
  unfold link
  rw [(indexed.linkOne i j).find?_modify_of_ne second.symm, indexed.find?_modify_of_ne first.symm]

/-- No package is a companion, and so none is linked when a container is made beside it. -/
theorem ne_of_partner? {i : Key} (met : c.partner? j = some i) (package : k.kind = .package) :
    i ≠ k := by
  rintro rfl
  have paired := Key.companion?_symm (partner?_eq_some.mp met).1
  exact absurd paired (Key.companion?_package package)

theorem Indexed.ensure_replace (indexed : c.Indexed) (found : c.find? k = some old)
    (package : k.kind = .package) (differ : j ≠ k) :
    (c.replace k new).ensure j = (c.ensure j).replace k new := by
  have created : (c.replace k new).create j = (c.create j).replace k new :=
    create_replace found differ
  cases placed : c.place? j with
  | some i => rw [ensure_of_place? placed, ensure_of_place? (place?_replace.trans placed)]
  | none =>
    have placed' : (c.replace k new).place? j = none := place?_replace.trans placed
    cases met : c.partner? j with
    | none =>
      rw [ensure_alone placed met, ensure_alone placed' (partner?_replace.trans met), created]
    | some i =>
      rw [ensure_linked placed met, ensure_linked placed' (partner?_replace.trans met), created,
        (indexed.create placed).link_replace (ne_of_partner? met package) differ]

theorem Indexed.find?_ensure_of_ne (indexed : c.Indexed) (package : k.kind = .package)
    (differ : k ≠ j) : (c.ensure j).find? k = c.find? k := by
  cases placed : c.place? j with
  | some i => rw [ensure_of_place? placed]
  | none =>
    have created : (c.create j).find? k = c.find? k := indexed.find?_create_of_ne_eq differ
    cases met : c.partner? j with
    | none => rw [ensure_alone placed met, created]
    | some i =>
      rw [ensure_linked placed met, (indexed.create placed).find?_link_of_ne
        (ne_of_partner? met package) differ.symm, created]

/-- What stands under a key is not asked when an entry comes in beside it. -/
theorem enter_replace (found : c.find? k = some old) (entry : Entry) :
    (c.replace k new).enter entry =
      { c.enter entry with container := (c.enter entry).container.replace k new } := by
  obtain ⟨i, placed, _⟩ := exists_of_find? found
  have title : (c.replace k new).title = c.title := congrArg Head.title head_replace
  cases entry with
  | field name type =>
    have same : (c.replace k new).hasField name = c.hasField name := by
      simp only [hasField, index_replace]
    rw [enter_field, enter_field, same, title]
    split
    · rfl
    · refine congrArg (Edit.mk · []) (Eq.trans ?_ (grown_replace found (.field name type) rfl))
      simp only [addField, append, replace_of_place? placed, List.length_set]
  | method m =>
    have same : (c.replace k new).hasOverload m.overload = c.hasOverload m.overload := by
      simp only [hasOverload, index_replace]
    rw [enter_method, enter_method, same, title]
    split
    · rfl
    · refine congrArg (Edit.mk · []) (Eq.trans ?_ (grown_replace found (.method m) rfl))
      simp only [addMethod, append, replace_of_place? placed]
  | specialized name => simp only [enter, title]
  | placeholder node =>
    simp only [enter, title, addComment]
    refine congrArg (Edit.mk · _) (Eq.trans ?_
      (grown_replace found (.comment (placeholderText node)) rfl))
    simp only [append, replace_of_place? placed]

/-- Two packages that differ in what stands under one key, and in nothing else. -/
structure Beside (k : Key) (old new c d : Container) : Prop where
  sound : c.Sound
  found : c.find? k = some old
  replaced : d = c.replace k new

namespace Beside

theorem find? (beside : Beside k old new c d) (differ : j ≠ k) : c.find? j = d.find? j := by
  rw [beside.replaced, beside.sound.coherent.find?_replace_of_ne differ]

theorem replace (beside : Beside k old new c d) (differ : j ≠ k) {e' : Container}
    (found : c.find? j = some e) (evolves : e.Evolves e') :
    Beside k old new (c.replace j e') (d.replace j e') where
  sound := (evolves_replace found evolves).sound beside.sound
  found := (beside.sound.coherent.find?_replace_of_ne differ.symm).trans beside.found
  replaced := by rw [beside.replaced, beside.sound.coherent.replace_comm differ]

theorem ensure (beside : Beside k old new c d) (package : k.kind = .package) (differ : j ≠ k) :
    Beside k old new (c.ensure j) (d.ensure j) where
  sound := (evolves_ensure c j).sound beside.sound
  found := (beside.sound.coherent.find?_ensure_of_ne package differ.symm).trans beside.found
  replaced := by
    rw [beside.replaced, beside.sound.coherent.ensure_replace beside.found package differ]

theorem enter (beside : Beside k old new c d) (entry : Entry) :
    Beside k old new (c.enter entry).container (d.enter entry).container ∧
      (c.enter entry).notes = (d.enter entry).notes := by
  obtain ⟨sound, found, rfl⟩ := beside
  rw [enter_replace found]
  exact ⟨⟨(evolves_enter c entry).sound sound, find?_enter found entry, rfl⟩, rfl⟩

end Beside
end Container

/-- All keys but one, and every entry, since entries are no containers. -/
def besideAt {k : Key} {old new : Container} (package : k.kind = .package)
    (evolves : old.Evolves new) : Simulation (· ≠ k) (fun _ => True) where
  rel := Container.Beside k old new
  left beside := beside.sound
  right beside := beside.replaced ▸
    (Container.evolves_replace beside.found evolves).sound beside.sound
  package beside := by simp only [Container.isPackage, Container.kind, Container.key,
    beside.replaced, Container.head_replace]
  paired met _ same := absurd (Key.companion?_symm met) (same ▸ Key.companion?_package package)
  find? beside differ := beside.find? differ
  replace beside differ found evolves := beside.replace differ found evolves
  ensure beside differ := beside.ensure package differ
  enter beside _ := beside.enter _

namespace Container

variable {c d old new : Container} {k : Key}

/-- Working on one namespace first, and then on what is beside it, comes to the same. -/
theorem Beside.declareAll (beside : Beside k old new c d) (evolves : old.Evolves new)
    (package : c.isPackage = true) (namespaced : k.kind = .package) {nodes : List Node}
    (apart : ∀ node ∈ nodes, node.opened? ≠ some k) :
    Beside k old new (c.declareAll nodes).container (d.declareAll nodes).container ∧
      (c.declareAll nodes).notes = (d.declareAll nodes).notes :=
  (besideAt namespaced evolves).declareAll beside package
    (fun node member _ opened same => apart node member (same ▸ opened)) fun _ _ _ _ => trivial

/-- A namespace with two bodies, once with only the first of them in it and once with both. -/
theorem Sound.beside_moduleDecl (sound : c.Sound) (package : c.isPackage = true) (name : String)
    (first second : List Node) :
    ∃ old : Container,
      Beside ⟨.package, name⟩ old (old.declareAll second).container
        (c.declare (.moduleDecl name first)).container
        (c.declare (.moduleDecl name (first ++ second))).container ∧
      (c.declare (.moduleDecl name (first ++ second))).notes =
        (c.declare (.moduleDecl name first)).notes ++ (old.declareAll second).notes := by
  obtain ⟨inner, found, innerSound, innerPackage⟩ := sound.exists_opened name
  have evolves := evolves_declareAll inner first
  have opened := (evolves_ensure c ⟨.package, name⟩).sound sound
  have joined := declareAll_append innerSound innerPackage first second
  refine ⟨(inner.declareAll first).container, ?_, ?_⟩
  · simp only [declare, package, found, joined, ↓reduceIte]
    exact ⟨(evolves_replace found evolves).sound opened, find?_replace_self found,
      replace_replace_self.symm⟩
  · simp only [declare, package, found, joined, ↓reduceIte]

/-- The second body finds the namespace as the first one left it. -/
theorem Beside.declare_moduleDecl {name : String} {members : List Node}
    (beside : Beside ⟨.package, name⟩ old (old.declareAll members).container c d)
    (package : c.isPackage = true) :
    (c.declare (.moduleDecl name members)).container = d ∧
      (c.declare (.moduleDecl name members)).notes = (old.declareAll members).notes := by
  have opened := ensure_of_find? beside.found
  simp only [declare, package, opened, beside.found, beside.replaced, ↓reduceIte, and_self]

theorem declareAll_reopened (sound : c.Sound) (package : c.isPackage = true) {name : String}
    {mid : List Node} (unopened : ∀ members, .moduleDecl name members ∉ mid)
    (first second : List Node) :
    let split := c.declareAll (.moduleDecl name first :: mid ++ [.moduleDecl name second])
    let joined := c.declareAll (.moduleDecl name (first ++ second) :: mid)
    split.container = joined.container ∧ split.notes.Perm joined.notes := by
  obtain ⟨old, beside, both⟩ := sound.beside_moduleDecl package name first second
  have evolves := evolves_declare c (.moduleDecl name first)
  have sound₁ := evolves.sound sound
  have package₁ := evolves.isPackage.trans package
  have apart : ∀ node ∈ mid, node.opened? ≠ some ⟨.package, name⟩ := by
    intro node member opened
    obtain ⟨members, rfl⟩ := Ambient.Node.eq_moduleDecl opened
    exact unopened members member
  obtain ⟨beside₂, between⟩ :=
    beside.declareAll (evolves_declareAll old second) package₁ rfl apart
  have package₂ := (evolves_declareAll _ mid).isPackage.trans package₁
  obtain ⟨last, notes⟩ := beside₂.declare_moduleDecl package₂
  have sound₂ := (evolves_declareAll _ mid).sound sound₁
  simp only [List.cons_append, declareAll_cons sound package, declareAll_append sound₁ package₁,
    declareAll_singleton sound₂ package₂, last, notes, both, between, List.append_assoc, true_and]
  exact List.Perm.append_left _ List.perm_append_comm

end Container

theorem importTree_around (pre nodes post : List Node) :
    importTree (pre ++ (nodes ++ post)) =
      let between := (importTree pre).container.declareAll nodes
      let after := between.container.declareAll post
      { after with notes := (importTree pre).notes ++ (between.notes ++ after.notes) } := by
  have outer := Container.declareAll_append Container.sound_root rfl pre (nodes ++ post)
  have inner := Container.declareAll_append (sound_importTree pre) (isPackage_importTree pre)
    nodes post
  exact outer.trans (congrArg (fun later : Outcome =>
    { later with notes := (importTree pre).notes ++ later.notes }) inner)

/-- Whatever stands around and between its two bodies, a namespace opened twice is imported as
the namespace that holds both, if nothing between them opens it again. -/
theorem importTree_reopened (pre mid post first second : List Node) {name : String}
    (unopened : ∀ members, .moduleDecl name members ∉ mid) :
    let split := importTree
      (pre ++ [.moduleDecl name first] ++ mid ++ [.moduleDecl name second] ++ post)
    let joined := importTree (pre ++ [.moduleDecl name (first ++ second)] ++ mid ++ post)
    split.fault = none ∧ joined.fault = none ∧
      split.container = joined.container ∧ split.notes.Perm joined.notes := by
  obtain ⟨same, notes⟩ := Container.declareAll_reopened (sound_importTree pre)
    (isPackage_importTree pre) unopened first second
  have regrouped : pre ++ [.moduleDecl name first] ++ mid ++ [.moduleDecl name second] ++ post =
      pre ++ (.moduleDecl name first :: mid ++ [.moduleDecl name second] ++ post) := by
    simp only [List.append_assoc, List.cons_append, List.nil_append]
  have regrouped' : pre ++ [.moduleDecl name (first ++ second)] ++ mid ++ post =
      pre ++ (.moduleDecl name (first ++ second) :: mid ++ post) := by
    simp only [List.append_assoc, List.cons_append, List.nil_append]
  refine ⟨fault_importTree _, fault_importTree _, ?_⟩
  simp only [regrouped, regrouped', importTree_around, same, true_and]
  exact (notes.append_right _).append_left _

/-- A variable, an interface and another namespace between two bodies with a clash of fields. -/
theorem importTree_reopened_between :
    let pre : List Node := [.functionDecl "f" ⟨[], [], none⟩]
    let mid : List Node := [.varDecl "x" none, .moduleDecl "other" [.varDecl "x" none],
      .interfaceDecl (.plain "js") [] [] [.propertyMember "x" false (.core "any")]]
    let post : List Node := [.moduleDecl "js" [.varDecl "y" none]]
    let first : List Node := [.varDecl "x" (some (.core "string"))]
    let second : List Node := [.varDecl "x" none, .varDecl "y" (some (.core "number"))]
    let split := importTree
      (pre ++ [.moduleDecl "js" first] ++ mid ++ [.moduleDecl "js" second] ++ post)
    let joined := importTree (pre ++ [.moduleDecl "js" (first ++ second)] ++ mid ++ post)
    (∀ members, .moduleDecl "js" members ∉ mid) ∧ split.fault = none ∧ joined.fault = none ∧
      split.container = joined.container ∧ split.notes.Perm joined.notes := by
  intro pre mid post first second
  have unopened : ∀ members, .moduleDecl "js" members ∉ mid := by simp [mid]
  exact ⟨unopened, importTree_reopened pre mid post first second unopened⟩

end Facade
