import Facade.Proofs.Charter
import Facade.Proofs.Contents

/-! Index accessors come in pairs. The two accessors of an index signature are taken or collapsed
one by one, and the result of the one is a parameter of the other, so that two signatures with
one index share the first getter and may have a setter each. A getter always has its setter and
a setter a getter, since of everything that came to a container something with its overload is
there. -/
namespace Facade
open Ambient (Node Signature)

namespace Method

variable {m n : Method} {index value : HostType}

/-- The accessor that reads a value at an index. -/
def Gets (m : Method) (index value : HostType) : Prop :=
  ∃ name, m =
    { name := applyName, params := [{ name, type := index }], result := value, bracket := true }

/-- The accessor that writes a value at an index. -/
def Sets (m : Method) (index value : HostType) : Prop :=
  ∃ name other, m =
    { name := updateName, params := [{ name, type := index }, { name := other, type := value }],
      result := .unit, bracket := true }

def IsAccessor (m : Method) : Prop := ∃ index value, m.Gets index value ∨ m.Sets index value

theorem Gets.overload (gets : m.Gets index value) :
    m.overload = ⟨applyName, true, [], [(index, false)]⟩ := by
  obtain ⟨name, rfl⟩ := gets
  rfl

theorem Sets.overload (sets : m.Sets index value) :
    m.overload = ⟨updateName, true, [], [(index, false), (value, false)]⟩ := by
  obtain ⟨name, other, rfl⟩ := sets
  rfl

theorem IsAccessor.bracket (accessor : m.IsAccessor) : m.bracket = true := by
  obtain ⟨_, _, ⟨_, rfl⟩ | ⟨_, _, rfl⟩⟩ := accessor <;> rfl

theorem IsAccessor.isOrdinary (accessor : m.IsAccessor) : m.isOrdinary = true := by
  obtain ⟨_, _, ⟨_, rfl⟩ | ⟨_, _, rfl⟩⟩ := accessor <;> rfl

/-- Among accessors the overload of a getter tells the index, but not the value. -/
theorem IsAccessor.gets (accessor : n.IsAccessor) (gets : m.Gets index value)
    (same : n.overload = m.overload) : ∃ found, n.Gets index found := by
  rw [gets.overload] at same
  obtain ⟨i, v, got | set⟩ := accessor
  · rw [got.overload] at same
    obtain rfl : i = index := by simpa using same
    exact ⟨v, got⟩
  · rw [set.overload] at same
    simp at same

theorem IsAccessor.sets (accessor : n.IsAccessor) (sets : m.Sets index value)
    (same : n.overload = m.overload) : n.Sets index value := by
  rw [sets.overload] at same
  obtain ⟨i, v, got | set⟩ := accessor
  · rw [got.overload] at same
    simp at same
  · rw [set.overload] at same
    obtain ⟨rfl, rfl⟩ : i = index ∧ v = value := by simpa using same
    exact set

theorem Gets.inj {index' value' : HostType} (first : m.Gets index value)
    (second : m.Gets index' value') : index' = index ∧ value' = value := by
  obtain ⟨name, rfl⟩ := first
  obtain ⟨name', same⟩ := second
  simp only [Method.mk.injEq, List.cons.injEq, Param.mk.injEq] at same
  exact ⟨same.2.2.1.1.2.1.symm, same.2.2.2.1.symm⟩

theorem Sets.inj {index' value' : HostType} (first : m.Sets index value)
    (second : m.Sets index' value') : index' = index ∧ value' = value := by
  have same := first.overload.symm.trans second.overload
  simpa [eq_comm] using same

theorem Gets.not_sets {index' value' : HostType} (gets : m.Gets index value) :
    ¬ m.Sets index' value' := by
  intro sets
  have same := gets.overload.symm.trans sets.overload
  simp at same

end Method

namespace Ambient

variable {m : Method} {name : String} {index value : HostType}

theorem mem_accessors (listed : m ∈ accessors name index value) :
    m.Gets index value ∨ m.Sets index value := by
  simp only [accessors, List.mem_cons, List.not_mem_nil, or_false] at listed
  exact listed.imp (fun same => ⟨name, same⟩) fun same => ⟨name, "v", same⟩

theorem isAccessor_of_mem (listed : m ∈ accessors name index value) : m.IsAccessor :=
  ⟨index, value, mem_accessors listed⟩

theorem exists_getter (name : String) (index value : HostType) :
    ∃ m ∈ accessors name index value, m.Gets index value := ⟨_, .head _, name, rfl⟩

theorem exists_setter (name : String) (index value : HostType) :
    ∃ m ∈ accessors name index value, m.Sets index value := ⟨_, .tail _ (.head _), name, "v", rfl⟩

/-- Only index signatures declare accessors. -/
theorem Node.eq_indexMember {node : Node} (declared : m ∈ node.methods)
    (bracket : m.bracket = true) :
    ∃ name index value, node = .indexMember name index value ∧
      m ∈ accessors name (index.hostType .inner) (value.hostType .inner) := by
  cases node with
  | indexMember name index value => exact ⟨name, index, value, rfl, declared⟩
  | callMember s | functionMember _ _ s =>
    rw [(Signature.general?_eq_some.mp (Option.mem_toList.mp declared)).2] at bracket
    contradiction
  | _ => contradiction

/-- Apart from accessors only calls have the name of calls. -/
theorem Node.eq_callMember {node : Node} (declared : m ∈ node.methods)
    (named : m.name = Method.applyName) (plain : m.bracket = false) :
    ∃ s, node = .callMember s := by
  cases node with
  | callMember s => exact ⟨s, rfl⟩
  | functionMember name optional s =>
    -- A function that is called `apply` is renamed.
    rw [(Signature.general?_eq_some.mp (Option.mem_toList.mp declared)).2] at named
    exact absurd named (escapeApply_ne_applyName name)
  | indexMember name index value =>
    obtain ⟨_, rfl⟩ | ⟨_, _, rfl⟩ := mem_accessors declared <;> contradiction
  | _ => contradiction

theorem Node.field?_ne_applyName {node : Node} {type : HostType} :
    node.field? ≠ some (Method.applyName, type) := by
  intro same
  cases node with
  | propertyMember name optional declared =>
    simp only [field?, Option.ite_none_left_eq_some, Option.some.injEq, Prod.mk.injEq] at same
    exact escapeApply_ne_applyName name same.2.1
  | _ => contradiction

end Ambient

/-! ## Accessors throughout a tree -/

namespace Charter

/-- What is accessed by index is an accessor. -/
def accessors : Charter where
  parent _ := True
  typeParam _ := True
  field _ _ _ := True
  method _ m := m.bracket = true → m.IsAccessor
  field_grows _ := id
  method_grows _ := id

theorem accessors_entry (head : Head) (s : Signature) (name : String) :
    accessors.Admits head (s.entry name) := by
  unfold Signature.entry
  split
  · trivial
  · exact fun bracket => Bool.noConfusion bracket

theorem accessors_member (kind : Kind) (node : Node) : accessors.AdmitsMember kind node where
  entries entry member head _ := by
    cases Node.brings_of_mem member with
    | call s | function _ _ s => exact accessors_entry head s _
    | accessor listed => exact fun _ => Ambient.isAccessor_of_mem listed
    | property | placeholder => trivial
  constructor s _ info _ := accessors_entry _ _ _

theorem accessors_covers : accessors.Covers fun _ => True where
  package _ _ _ := trivial
  single _ single head _ := by
    cases Node.stands_of_single single with
    | function name s => exact accessors_entry head s name
    | typed | untyped | placeholder => trivial
  object _ node _ := accessors_member _ node
  record _ node _ := accessors_member _ node
  interface _ := ⟨fun _ _ => trivial, fun _ _ => trivial, fun node _ => accessors_member _ node⟩

end Charter

namespace Container

variable {c d root : Container} {k : Key} {nodes : List Node} {m : Method} {index value : HostType}

/-- Everything but a package is found in a namespace. -/
theorem Sound.exists_namespace (sound : root.Sound) (layered : root.Layered)
    (package : root.isPackage = true) (inside : c.Inside root) (other : c.isPackage = false) :
    ∃ names : List String, root.get? (names.map (Key.mk .package) ++ [c.key]) = some c := by
  induction inside with
  | self c =>
    rw [package] at other
    contradiction
  | @member root d c there inner ih =>
    have found := sound.coherent.find?_eq_some.mpr ⟨there, rfl⟩
    cases kind : d.isPackage with
    | true =>
      have inside := (layered_iff.mp layered).2 d there
      obtain ⟨names, below⟩ := ih (sound.find? found) inside kind other
      have key : d.key = ⟨.package, d.name⟩ := by
        rw [← eq_of_beq kind]
        rfl
      refine ⟨d.name :: names, ?_⟩
      rw [List.map_cons, List.cons_append, get?, ← key, found]
      exact below
    | false =>
      -- What is no package has no containers inside.
      have leaves := (layered d (.member there (.self d))).resolve_left (by rw [kind]; decide)
      cases inner with
      | self => exact ⟨[], (get?_key root d.key).trans found⟩
      | member deeper _ =>
        have leaf := leaves _ deeper
        contradiction

/-- What is accessed by index is a getter or a setter, there is one getter an index, a getter has
its setter and a setter a getter; the name of both is kept clear of fields. -/
structure Paired (c : Container) : Prop where
  accessor : ∀ m, .method m ∈ c.members → m.bracket = true → m.IsAccessor
  distinct : ∀ (i j : Nat) (m n : Method) (index value other : HostType),
    c.members[i]? = some (.method m) → c.members[j]? = some (.method n) →
      m.Gets index value → n.Gets index other → i = j
  setter : ∀ m index value, .method m ∈ c.members → m.Gets index value →
    ∃ n, .method n ∈ c.members ∧ n.Sets index value
  getter : ∀ m index value, .method m ∈ c.members → m.Sets index value →
    ∃ n found, .method n ∈ c.members ∧ n.Gets index found
  field : ∀ type, .field Method.applyName type ∉ c.members

theorem Holds.exists_method {parents : List HostType}
    (held : c.Holds (nodes.flatMap (·.entries)) parents) (ordinary : m.isOrdinary = true)
    (declared : m ∈ nodes.flatMap (·.methods)) :
    ∃ n, .method n ∈ c.members ∧ n.overload = m.overload := by
  have taken : m.overload ∈ c.ordinaryMethods.map Method.overload := by
    rw [held.methods, mem_map_firstOfEach, Ambient.filterMap_ordinary?_flatMap_entries]
    exact List.mem_map_of_mem (List.mem_filter.mpr ⟨declared, ordinary⟩)
  obtain ⟨n, listed, same⟩ := List.mem_map.mp taken
  exact ⟨n, (mem_ordinaryMethods.mp listed).1, same⟩

theorem Holds.declared {parents : List HostType}
    (held : c.Holds (nodes.flatMap (·.entries)) parents) (ordinary : m.isOrdinary = true)
    (member : .method m ∈ c.members) : ∃ node ∈ nodes, m ∈ node.methods := by
  have listed := mem_ordinaryMethods.mpr ⟨member, ordinary⟩
  rw [held.methods, Ambient.filterMap_ordinary?_flatMap_entries] at listed
  have kept := firstOfEach_subset _ _ listed
  exact List.mem_flatMap.mp (List.mem_filter.mp kept).1

/-- An accessor comes with the other one of its signature, and of both the overload is taken. -/
theorem Holds.exists_signature {parents : List HostType}
    (held : c.Holds (nodes.flatMap (·.entries)) parents) (keeps : c.Keeps Charter.accessors)
    (member : .method m ∈ c.members) (accessor : m.IsAccessor) :
    ∃ name index value, m ∈ Ambient.accessors name index value ∧
      ∀ n ∈ Ambient.accessors name index value,
        ∃ taken, .method taken ∈ c.members ∧ taken.IsAccessor ∧ taken.overload = n.overload := by
  obtain ⟨node, there, declared⟩ := held.declared accessor.isOrdinary member
  obtain ⟨name, i, v, rfl, listed⟩ := Ambient.Node.eq_indexMember declared accessor.bracket
  refine ⟨name, i.hostType .inner, v.hostType .inner, listed, fun n beside => ?_⟩
  have other := Ambient.isAccessor_of_mem beside
  obtain ⟨taken, member', same⟩ :=
    held.exists_method other.isOrdinary (List.mem_flatMap.mpr ⟨_, there, beside⟩)
  have bracket : taken.bracket = true :=
    (congrArg Method.Overload.bracket same).trans other.bracket
  exact ⟨taken, member', keeps.members (.method taken) member' bracket, same⟩

theorem Holds.paired {parents : List HostType}
    (held : c.Holds (nodes.flatMap (·.entries)) parents) (coherent : c.Coherent)
    (keeps : c.Keeps Charter.accessors) : c.Paired where
  accessor m member := keeps.members (.method m) member
  distinct i j m n index value other here there gets gets' :=
    coherent.consistent.methods i j m n here there (gets.overload.trans gets'.overload.symm)
  setter m index value member gets := by
    obtain ⟨name, i, v, listed, beside⟩ :=
      held.exists_signature keeps member ⟨index, value, .inl gets⟩
    obtain ⟨rfl, rfl⟩ := gets.inj ((Ambient.mem_accessors listed).resolve_right gets.not_sets)
    obtain ⟨setter, there, sets⟩ := Ambient.exists_setter name i v
    obtain ⟨taken, member', accessor, same⟩ := beside setter there
    exact ⟨taken, member', accessor.sets sets same⟩
  getter m index value member sets := by
    obtain ⟨name, i, v, listed, beside⟩ :=
      held.exists_signature keeps member ⟨index, value, .inr sets⟩
    obtain ⟨rfl, rfl⟩ := sets.inj ((Ambient.mem_accessors listed).resolve_left (·.not_sets sets))
    obtain ⟨getter, there, gets⟩ := Ambient.exists_getter name i v
    obtain ⟨taken, member', accessor, same⟩ := beside getter there
    obtain ⟨found, got⟩ := accessor.gets gets same
    exact ⟨taken, found, member', got⟩
  field type member := by
    have listed := mem_typedFields.mpr member
    rw [held.fields, Ambient.filterMap_field?_flatMap_entries] at listed
    obtain ⟨node, _, declared⟩ := List.mem_filterMap.mp (firstOfEach_subset _ _ listed)
    exact Ambient.Node.field?_ne_applyName declared

end Container

/-- All classes and objects of an imported tree stand in namespaces, and wherever one stands its
index accessors are paired. It has a method of the name of calls that is no accessor only if there
is a call in one of its bodies. -/
theorem accessors_importTree (declarations : List Node) :
    let root := (importTree declarations).container
    (∀ c : Container, c.Inside root → c.isPackage = false →
      ∃ names : List String, root.get? (names.map (Key.mk .package) ++ [c.key]) = some c) ∧
    ∀ (names : List String) (k : Key) (c : Container), k.kind ≠ .package →
      root.get? (names.map (Key.mk .package) ++ [k]) = some c →
        c.Paired ∧
        ∀ m, .method m ∈ c.members → m.name = Method.applyName → m.bracket = false →
          ∃ s, .callMember s ∈ bodiesUnder k (declaredIn names declarations) := by
  intro root
  have sound : root.Sound := sound_importTree declarations
  refine ⟨fun c inside other => sound.exists_namespace (layered_importTree declarations)
    (isPackage_importTree declarations) inside other, fun names k c body found => ?_⟩
  have held := holds_importTree names declarations body found
  have inside : c.Inside root := sound.inside_iff.mpr ⟨_, found⟩
  have keeps := obeys_importTree Charter.accessors_covers (fun _ _ => trivial) c inside
  refine ⟨held.paired (sound.of_get? found).coherent keeps, fun m member named plain => ?_⟩
  have ordinary : m.isOrdinary = true := by
    rw [Method.isOrdinary, named]
    decide
  obtain ⟨node, there, declared⟩ := held.declared ordinary member
  obtain ⟨s, rfl⟩ := Ambient.Node.eq_callMember declared named plain
  exact ⟨s, there⟩

/-- Two index signatures for one index, in two pieces of a trait. The second setter stands beside
the first getter. -/
theorem accessors_importTree_shared :
    let call : Node := .callMember ⟨[], [], none⟩
    let first : Node := .indexMember "i" (.core "number") (.core "string")
    let second : Node := .indexMember "j" (.core "number") (.core "boolean")
    let root := (importTree [
      .moduleDecl "js" [.interfaceDecl (.plain "A") [] [] [first, call]],
      .moduleDecl "js" [.typeDecl (.plain "A") (.objectType [second])]]).container
    ∃ c, root.get? [⟨.package, "js"⟩, ⟨.classOrTrait, "A"⟩] = some c ∧ c.Paired ∧
      (∃ m, .method m ∈ c.members ∧ m.Sets .number .boolean) ∧
      (∃ m found, .method m ∈ c.members ∧ m.Gets .number found) ∧
      ∃ s, .callMember s ∈ [first, call, second] := by
  intro call first second root
  have built : (root.get? [⟨.package, "js"⟩, ⟨.classOrTrait, "A"⟩]).map Container.methods =
      some (Ambient.accessors "i" .number .string ++ [{ name := "apply" },
        { name := "update", params := [⟨"j", .number, false⟩, ⟨"v", .boolean, false⟩],
          result := .unit, bracket := true }]) := rfl
  obtain ⟨c, found, methods⟩ := Option.map_eq_some_iff.mp built
  obtain ⟨paired, called⟩ :=
    (accessors_importTree _).2 ["js"] ⟨.classOrTrait, "A"⟩ c (by decide) found
  have there : ∀ m ∈ c.methods, .method m ∈ c.members := fun m => Container.mem_methods.mp
  rw [methods] at there
  have setter := there _ (.tail _ (.tail _ (.tail _ (.head _))))
  have sets : Method.Sets _ .number .boolean := ⟨"j", "v", rfl⟩
  obtain ⟨getter, value, beside, gets⟩ := paired.getter _ _ _ setter sets
  refine ⟨c, found, paired, ⟨_, setter, sets⟩, ⟨getter, value, beside, gets⟩, ?_⟩
  exact called _ (there _ (.tail _ (.tail _ (.head _)))) rfl rfl

end Facade
