import Facade.Proofs.Holdings
import Facade.Proofs.Layers
import Facade.Proofs.Namespaces

/-! What a class or an object ends up with. The bodies of its name arrive in pieces, between
other declarations, and all that matters is their members in the order of the source: of these
the container keeps the first field of each name and the first method of each overload, and the
class keeps the first of each parent. -/
namespace Facade
open Ambient (Node Signature)

/-- The members that a declaration brings to the container under a key. -/
def Ambient.Node.bodyUnder (k : Key) : Node → List Node
  | .varDecl name (some (.objectType members)) => if ⟨.object, name⟩ = k then members else []
  | .typeDecl name (.objectType members) =>
      if ⟨.classOrTrait, name.text⟩ = k then members else []
  | .interfaceDecl name _ _ members => if ⟨.classOrTrait, name.text⟩ = k then members else []
  | _ => []

/-- The types that a declaration has the class under a key inherit from. -/
def Ambient.Node.parentsUnder (k : Key) : Node → List Node
  | .interfaceDecl name _ parents _ => if ⟨.classOrTrait, name.text⟩ = k then parents else []
  | _ => []

/-- The bodies of the container under a key, one after the other. -/
def bodiesUnder (k : Key) (declarations : List Node) : List Node :=
  declarations.flatMap (·.bodyUnder k)

def parentsUnder (k : Key) (declarations : List Node) : List Node :=
  declarations.flatMap (·.parentsUnder k)

/-! ## What stands in a package -/

namespace Container

variable {c d old new : Container} {j k : Key} {entries : List Entry} {parents : List HostType}

/-- The container under a key, empty while nothing has made it. -/
def childAt (c : Container) (k : Key) : Container := (c.find? k).getD (fresh k)

theorem childAt_of_find? (found : c.find? k = some d) : c.childAt k = d := by
  rw [childAt, found, Option.getD_some]

theorem Indexed.childAt_replace (indexed : c.Indexed) (found : c.find? j = some old) :
    (c.replace j new).childAt k = if j = k then new else c.childAt k := by
  by_cases same : j = k
  · subst j
    rw [if_pos rfl, childAt_of_find? (find?_replace_self found)]
  · rw [if_neg same, Container.childAt, indexed.find?_replace_of_ne (Ne.symm same),
      Container.childAt]

/-- To open a container changes no more than a link in another one. -/
theorem Sound.childAt_ensure (sound : c.Sound) (j k : Key) :
    ((c.ensure j).childAt k).members = (c.childAt k).members ∧
      ((c.ensure j).childAt k).head = (c.childAt k).head := by
  cases before : c.find? j with
  | some e =>
    rw [ensure_of_find? before]
    exact ⟨rfl, rfl⟩
  | none =>
    cases made : (c.ensure j).find? k with
    | none =>
      cases found : c.find? k with
      | none => simp only [Container.childAt, found, made, and_self]
      | some e =>
        obtain ⟨d, kept⟩ := (evolves_ensure c j).find? sound found
        rw [made] at kept
        contradiction
    | some d =>
      obtain ⟨member, key⟩ := (sound.ensure j).coherent.find?_eq_some.mp made
      obtain ⟨e, origin, head, members⟩ := sound.coherent.mem_ensure member
      have same : e.key = k := (congrArg Head.key head).symm.trans key
      have child : c.childAt k = e := by
        rcases origin with there | rfl
        · exact childAt_of_find? (sound.coherent.find?_eq_some.mpr ⟨there, same⟩)
        · -- A container that was just made is what an absent one counted as.
          rw [key_fresh] at same
          subst j
          rw [Container.childAt, before, Option.getD_none]
      rw [childAt_of_find? made, child]
      exact ⟨members, head⟩

theorem Holds.ensure (held : (c.childAt k).Holds entries parents) (sound : c.Sound) (j : Key) :
    ((c.ensure j).childAt k).Holds entries parents := by
  obtain ⟨members, head⟩ := sound.childAt_ensure j k
  exact held.of_members_eq members (congrArg Head.parents head)

theorem Holds.modify (held : (c.childAt k).Holds entries parents) (sound : c.Sound) (j : Key)
    {f : Container → Container}
    (inner : ∀ d : Container, d.Holds entries parents → (f d).Holds entries parents) :
    ((c.modify j f).childAt k).Holds entries parents := by
  cases found : c.find? j with
  | none => rwa [modify_of_absent found]
  | some d =>
    rw [modify_of_find? found, sound.coherent.childAt_replace found]
    split
    · next same =>
      subst j
      rw [childAt_of_find? found] at held
      exact inner d held
    · exact held

end Container

namespace Walk

variable {w : Walk} {j k : Key} {owner : Container} {entries : List Entry}
variable {parents : List HostType}

theorem holds_enterAt (sound : w.tree.Sound) (found : w.tree.find? j = some owner)
    (held : (w.tree.childAt k).Holds entries parents) (later : List Entry) :
    ((w.enterAt [j] later).tree.childAt k).Holds (entries ++ if j = k then later else [])
      parents := by
  rw [enterAt_key found, sound.coherent.childAt_replace found]
  split
  · next same =>
    subst j
    rw [Container.childAt_of_find? found] at held
    exact held.enterAll (sound.find? found) later
  · rwa [List.append_nil]

/-- A constructor comes to its class in silence. -/
theorem holds_promote (sound : w.tree.Sound) (held : (w.tree.childAt k).Holds entries parents)
    (x : String) (s : Signature) :
    ((w.promote [] x s).tree.childAt k).Holds entries parents := by
  have opened := (held.ensure sound ⟨.classOrTrait, x⟩).modify (sound.ensure _) ⟨.classOrTrait, x⟩
    fun d inner => inner.untrait
  have sound₁ := (Container.evolves_openClass w.tree x).sound sound
  obtain ⟨d, found⟩ := sound.coherent.exists_find?_openClass x
  have entered := holds_enterAt (w := { w with tree := w.tree.openClass x }) sound₁ found opened
    [s.constructorEntry]
  rw [promote_nil]
  split at entered
  · exact (Container.holds_silent s.silent_constructorEntry).mp entered
  · rwa [List.append_nil] at entered

theorem holds_member (sound : w.tree.Sound) (found : w.tree.find? j = some owner)
    (held : (w.tree.childAt k).Holds entries parents) (node : Node) :
    ((w.member ⟨[], [j]⟩ node).tree.childAt k).Holds
      (entries ++ if j = k then node.entries else []) parents := by
  cases node with
  | constructorMember s =>
    obtain ⟨_, name, companion, _, _, promoted⟩ | ⟨companion, left⟩ :=
      constructor_cases w ⟨[], [j]⟩ s
    · have entered := holds_promote (w := { w with companion }) sound held name s
      rw [member, promoted]
      split
      · exact (Container.holds_silent (Entry.silent_placeholder _)).mpr entered
      · rwa [List.append_nil]
    · rw [member, left]
      exact holds_enterAt (w := { w with companion }) sound found held _
  | _ => exact holds_enterAt sound found held _

theorem holds_members (sound : w.tree.Sound) (found : w.tree.find? j = some owner)
    (held : (w.tree.childAt k).Holds entries parents) (nodes : List Node) :
    ((w.members ⟨[], [j]⟩ nodes).tree.childAt k).Holds
      (entries ++ (if j = k then nodes else []).flatMap (·.entries)) parents := by
  induction nodes generalizing w owner entries with
  | nil => simpa [members] using held
  | cons node nodes ih =>
    have evolves := evolves_member w ⟨[], [j]⟩ node
    obtain ⟨_, found'⟩ := evolves.find? sound found
    have rest := ih (evolves.sound sound) found' (holds_member sound found held node)
    have joined : ((if j = k then node.entries else []) ++
        (if j = k then nodes else []).flatMap (·.entries)) =
          (if j = k then node :: nodes else []).flatMap (·.entries) := by
      split <;> rfl
    rw [List.append_assoc, joined] at rest
    exact rest

end Walk

namespace Ambient.Node

variable {node : Node} {k : Key}

/-- A declaration brings nothing to any container but the one it opens. -/
theorem under_eq_nil (apart : node.opened? ≠ some k) :
    node.bodyUnder k = [] ∧ node.parentsUnder k = [] := by
  cases node with
  | varDecl name type =>
    cases type with
    | none => exact ⟨rfl, rfl⟩
    | some type =>
      cases type with
      | objectType members => exact ⟨if_neg (apart ∘ congrArg some), rfl⟩
      | _ => exact ⟨rfl, rfl⟩
  | typeDecl name type =>
    cases type with
    | objectType members => exact ⟨if_neg (apart ∘ congrArg some), rfl⟩
    | _ => exact ⟨rfl, rfl⟩
  | interfaceDecl name typeParams parents members =>
    exact ⟨if_neg (apart ∘ congrArg some), if_neg (apart ∘ congrArg some)⟩
  | _ => exact ⟨rfl, rfl⟩

end Ambient.Node

namespace Container

variable {c d : Container} {j k : Key} {entries : List Entry} {parents : List HostType}

theorem Sound.holds_walkBody (sound : c.Sound) (found : c.find? j = some d)
    (held : (c.childAt k).Holds entries parents) (members : List Node) :
    ((c.walkBody ⟨[], [j]⟩ members).container.childAt k).Holds
      (entries ++ (if j = k then members else []).flatMap (·.entries)) parents :=
  Walk.holds_members (w := { tree := c }) sound found held members

theorem Sound.holds_fill (sound : c.Sound) (held : (c.childAt k).Holds entries parents) (j : Key)
    (members : List Node) :
    ((c.fill j members).container.childAt k).Holds
      (entries ++ (if j = k then members else []).flatMap (·.entries)) parents := by
  obtain ⟨_, found, _⟩ := sound.coherent.exists_find?_ensure j
  exact (sound.ensure j).holds_walkBody found (held.ensure sound j) members

theorem Sound.holds_extendClass (sound : c.Sound) (held : (c.childAt k).Holds entries parents)
    (x : String) (typeParams : List TypeParam) (types : List HostType) :
    ((c.extendClass x typeParams types).childAt k).Holds entries
      (parents ++ if ⟨.classOrTrait, x⟩ = k then types else []) := by
  obtain ⟨d, found, key⟩ := sound.coherent.exists_find?_ensure ⟨.classOrTrait, x⟩
  obtain ⟨info, head, _⟩ := Head.key_eq_classOrTrait.mp key
  have opened := held.ensure sound ⟨.classOrTrait, x⟩
  rw [extendClass, modify_of_find? found, (sound.ensure _).coherent.childAt_replace found]
  split
  · next own =>
    subst k
    rw [childAt_of_find? found] at opened
    exact opened.extend head typeParams types
  · rwa [List.append_nil]

theorem Sound.holds_declare (sound : c.Sound) (package : c.isPackage = true)
    (body : k.kind ≠ .package) (held : (c.childAt k).Holds entries parents) (node : Node) :
    ((c.declare node).container.childAt k).Holds (entries ++ (node.bodyUnder k).flatMap (·.entries))
      (parents ++ hostTypes (node.parentsUnder k)) := by
  cases node.form with
  | package name members =>
    obtain ⟨inner, found, _, done⟩ := sound.declare_moduleDecl package name members
    have apart : (⟨.package, name⟩ : Key) ≠ k := fun same => body (same ▸ rfl)
    rw [done, (sound.ensure _).coherent.childAt_replace found, if_neg apart]
    simpa [Ambient.Node.bodyUnder, Ambient.Node.parentsUnder, hostTypes] using
      held.ensure sound ⟨.package, name⟩
  | object name members | record name members =>
    simpa [Ambient.Node.bodyUnder, Ambient.Node.parentsUnder, hostTypes, declare] using
      sound.holds_fill held _ members
  | interface name typeParams types members =>
    -- The class inherits before its body is walked, and neither changes what the other reads.
    have extended := (evolves_extendClass c name.text (typeParams.map .ofAmbient)
      (hostTypes types)).sound sound
    obtain ⟨_, found⟩ := sound.coherent.exists_find?_extendClass name.text
      (typeParams.map .ofAmbient) (hostTypes types)
    have walked := extended.holds_walkBody found
      (sound.holds_extendClass held name.text _ (hostTypes types)) members
    rw [← declareInterface_eq] at walked
    simp only [Ambient.Node.bodyUnder, Ambient.Node.parentsUnder, declare, apply_ite hostTypes,
      hostTypes]
    exact walked
  | @single _ entry single =>
    have apart : node.opened? ≠ some k := by
      simp [Ambient.Node.opened?_single single]
    obtain ⟨members, types⟩ := Ambient.Node.under_eq_nil apart
    have same : (c.enter entry).container.childAt k = c.childAt k := by
      rw [Container.childAt, sound.coherent.find?_enter_eq, Container.childAt]
    rw [declare_single single, members, types, same]
    simpa [hostTypes] using held

/-- All that matters to a container are the bodies of its name, in order. -/
theorem Sound.holds_declareAll (sound : c.Sound) (package : c.isPackage = true)
    (body : k.kind ≠ .package) (held : (c.childAt k).Holds entries parents) (nodes : List Node) :
    ((c.declareAll nodes).container.childAt k).Holds
      (entries ++ (bodiesUnder k nodes).flatMap (·.entries))
      (parents ++ hostTypes (parentsUnder k nodes)) := by
  induction nodes generalizing c entries parents with
  | nil => simpa [bodiesUnder, parentsUnder, hostTypes, declareAll] using held
  | cons node nodes ih =>
    have evolves := evolves_declare c node
    have rest := ih (evolves.sound sound) (evolves.isPackage.trans package)
      (sound.holds_declare package body held node)
    rw [declareAll_cons sound package, bodiesUnder, parentsUnder, List.flatMap_cons,
      List.flatMap_cons, List.flatMap_append, hostTypes_append, ← List.append_assoc,
      ← List.append_assoc]
    exact rest

end Container

namespace Ambient

theorem filterMap_field?_flatMap_entries (nodes : List Node) :
    (nodes.flatMap (·.entries)).filterMap Entry.field? = nodes.filterMap (·.field?) := by
  induction nodes with
  | nil => rfl
  | cons node nodes ih =>
    rw [List.flatMap_cons, List.filterMap_append, ih, node.filterMap_field?_entries]
    cases declared : node.field? <;> simp [declared]

theorem filterMap_ordinary?_flatMap_entries (nodes : List Node) :
    (nodes.flatMap (·.entries)).filterMap Entry.ordinary? =
      (nodes.flatMap (·.methods)).filter (·.isOrdinary) := by
  induction nodes with
  | nil => rfl
  | cons node nodes ih =>
    rw [List.flatMap_cons, List.filterMap_append, ih, node.filterMap_ordinary?_entries,
      List.flatMap_cons, List.filter_append]

end Ambient

/-- The bodies of a class or an object in a namespace are all that comes to it. -/
theorem holds_packageAt_importTree (names : List String) (declarations : List Node) {k : Key}
    (body : k.kind ≠ .package) :
    (((importTree declarations).container.packageAt names).childAt k).Holds
      ((bodiesUnder k (declaredIn names declarations)).flatMap (·.entries))
      (hostTypes (parentsUnder k (declaredIn names declarations))) := by
  have empty : ((Container.root.packageAt names).childAt k).Holds [] [] := by
    rw [Container.childAt, Container.root, Container.find?_packageAt_fresh]
    exact Container.holds_fresh k
  rw [importTree, Container.sound_root.packageAt_declareAll rfl]
  exact (Container.sound_root.of_packageAt names).holds_declareAll
    (Container.sound_root.isPackage_packageAt rfl names) body empty _

theorem holds_importTree (names : List String) (declarations : List Node) {k : Key}
    (body : k.kind ≠ .package) {d : Container} (found : (importTree declarations).container.get?
      (names.map (Key.mk .package) ++ [k]) = some d) :
    d.Holds ((bodiesUnder k (declaredIn names declarations)).flatMap (·.entries))
      (hostTypes (parentsUnder k (declaredIn names declarations))) := by
  rw [Container.get?_packageAt] at found
  rw [← Container.childAt_of_find? found]
  exact holds_packageAt_importTree names declarations body

/-- In every namespace, a class or an object that something opens is there, and all bodies of its
name, one after the other, tell what it contains. Its fields are the first of each name, as
escaped; its methods, apart from constructors, are the first of each overload; and it inherits
from each type once, in the order of the interfaces. -/
theorem contents_importTree (names : List String) (declarations : List Node) (k : Key)
    (body : k.kind ≠ .package) :
    let root := (importTree declarations).container
    let here := declaredIn names declarations
    let path := names.map (Key.mk .package) ++ [k]
    (k ∈ here.filterMap (·.opened?) → ∃ d, root.get? path = some d) ∧
      ∀ d, root.get? path = some d →
        d.typedFields = firstOfEach Prod.fst ((bodiesUnder k here).filterMap (·.field?)) ∧
        d.ordinaryMethods = firstOfEach Method.overload
          (((bodiesUnder k here).flatMap (·.methods)).filter (·.isOrdinary)) ∧
        d.head.parents = (hostTypes (parentsUnder k here)).eraseDups := by
  intro root here path
  constructor
  · have sound := Container.sound_root.of_packageAt names
    have package := Container.sound_root.isPackage_packageAt rfl names
    have built : root.packageAt names =
        ((Container.root.packageAt names).declareAll here).container :=
      Container.sound_root.packageAt_declareAll rfl names declarations
    rw [Container.get?_packageAt root names k, built]
    exact sound.exists_find?_declareAll package
  · intro d found
    have held := holds_importTree names declarations body found
    rw [← Ambient.filterMap_field?_flatMap_entries, ← Ambient.filterMap_ordinary?_flatMap_entries]
    exact ⟨held.fields, held.methods, held.parents⟩

/-- A trait in three pieces, and its companion between them. -/
theorem contents_importTree_pieces :
    let property (name type : String) : Node := .propertyMember name false (.core type)
    let declarations : List Node := [
      .interfaceDecl (.plain "A") [] [.named "P" []]
        [property "x" "number", property "apply" "string"],
      .varDecl "A" (some (.objectType [property "z" "string"])),
      .typeDecl (.plain "A") (.objectType [property "x" "string", .callMember ⟨[], [], none⟩]),
      .interfaceDecl (.plain "A") [] [.named "Q" [], .named "P" []]
        [.callMember ⟨[], [], some (.core "void")⟩, property "y" "boolean"]]
    ∃ d, (importTree declarations).container.get? [⟨.classOrTrait, "A"⟩] = some d ∧
      d.typedFields = [("x", .number), ("$apply", .string), ("y", .boolean)] ∧
      d.ordinaryMethods = [{ name := "apply" }] ∧
      d.head.parents = [⟨⟨["P"]⟩, []⟩, ⟨⟨["Q"]⟩, []⟩] := by
  intro property declarations
  obtain ⟨made, held⟩ := contents_importTree [] declarations ⟨.classOrTrait, "A"⟩ (by decide)
  obtain ⟨d, found⟩ := made (.head _)
  obtain ⟨fields, methods, parents⟩ := held d found
  exact ⟨d, found, fields.trans (by decide), methods.trans (by decide), parents.trans (by decide)⟩

end Facade
