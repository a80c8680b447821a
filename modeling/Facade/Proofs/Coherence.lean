import Facade.Proofs.Evolution
import Facade.Session

/-! Every tree that can be built step by step is consistent throughout: members are told
apart by what they are looked up by, lookups and index agree with the members, and companions
are linked whichever of them came first. -/
namespace Facade
open Ambient (Node)

theorem getElem?_inj_of_nodup_filterMap {α β : Type} {f : α → Option β} {items : List α}
    (distinct : (items.filterMap f).Nodup) {i j : Nat} {a a' : α} {b : β}
    (here : items[i]? = some a) (there : items[j]? = some a') (first : f a = some b)
    (second : f a' = some b) : i = j := by
  obtain ⟨boundI, rfl⟩ := List.getElem?_eq_some_iff.mp here
  obtain ⟨boundJ, rfl⟩ := List.getElem?_eq_some_iff.mp there
  have apart := List.pairwise_iff_getElem.mp (List.pairwise_filterMap.mp distinct)
  rcases Nat.lt_trichotomy i j with less | same | more
  · exact absurd rfl (apart i j boundI boundJ less b first b second)
  · exact same
  · exact absurd rfl (apart j i boundJ boundI more b second b first)

namespace Container

/-- What a container promises to whoever looks something up in it. -/
structure Consistent (c : Container) : Prop where
  containers : ∀ (i j : Nat) (d e : Container), c.members[i]? = some (.container d) →
    c.members[j]? = some (.container e) → d.kind = e.kind → d.name = e.name → i = j
  fields : ∀ (i j : Nat) (name : String) (s t : HostType),
    c.members[i]? = some (.field name s) → c.members[j]? = some (.field name t) → i = j
  methods : ∀ (i j : Nat) (m n : Method), c.members[i]? = some (.method m) →
    c.members[j]? = some (.method n) → m.overload = n.overload → i = j
  found : ∀ k d, c.find? k = some d ↔ .container d ∈ c.members ∧ d.key = k
  listed : ∀ k i, (k, i) ∈ c.index.containers →
    ∃ d, c.members[i]? = some (.container d) ∧ d.key = k
  listedFields : ∀ name i, (name, i) ∈ c.index.fields →
    ∃ type, c.members[i]? = some (.field name type)
  listedOverloads : ∀ o ∈ c.index.overloads, ∃ m, .method m ∈ c.members ∧ m.overload = o
  companions : ∀ d e : Container, .container d ∈ c.members → .container e ∈ c.members →
    d.kind = .classOrTrait → e.kind = .object →
    (d.companion = some e.key ∧ e.companion = some d.key ↔ d.name = e.name)
  linked : ∀ (d : Container) k, .container d ∈ c.members → d.companion = some k →
    ∃ e, .container e ∈ c.members ∧ e.key = k ∧ e.companion = some d.key
  parents : ∀ info, c.head = .classOrTrait info → info.parents.Nodup

variable {c d e : Container} {k : Key}

theorem key_eq_of_kind_name (kind : d.kind = e.kind) (name : d.name = e.name) :
    d.key = e.key := by
  cases first : d.key
  cases second : e.key
  simp_all [Container.kind, Container.name]

theorem Coherent.companion_iff (coherent : c.Coherent) (member : .container d ∈ c.members) :
    d.companion = some k ↔
      d.key.companion? = some k ∧ ∃ e, .container e ∈ c.members ∧ e.key = k := by
  rw [coherent.linked d member, partner?_eq_some, coherent.isSome_place?,
    Option.isSome_iff_exists]
  simp only [coherent.find?_eq_some]

theorem companion?_classOrTrait (kind : d.kind = .classOrTrait) :
    d.key.companion? = some ⟨.object, d.name⟩ := by
  cases same : d.key
  simp_all [Container.kind, Container.name, Key.companion?]

theorem Coherent.consistent (coherent : c.Coherent) : c.Consistent where
  containers i j d e here there kind name :=
    coherent.eq_of_key_eq here there (key_eq_of_kind_name kind name)
  fields i j name s t here there := by
    have first := (lookup_eq_some_iff_mem coherent.fieldNames).mpr
      ((coherent.fields name i).mpr ⟨s, here⟩)
    have second := (lookup_eq_some_iff_mem coherent.fieldNames).mpr
      ((coherent.fields name j).mpr ⟨t, there⟩)
    exact Option.some.inj (first.symm.trans second)
  methods i j m n here there same := by
    have distinct := coherent.distinct
    rw [coherent.overloads, Container.methods, List.map_filterMap] at distinct
    exact getElem?_inj_of_nodup_filterMap distinct here there rfl
      (congrArg some same.symm)
  found k d := coherent.find?_eq_some
  listed k i := (coherent.toIndexed.containers k i).mp
  listedFields name i := (coherent.toIndexed.fields name i).mp
  listedOverloads _ := coherent.mem_overloads.mp
  companions d e memberD memberE classD objectE := by
    rw [coherent.companion_iff memberD, coherent.companion_iff memberE,
      companion?_classOrTrait classD]
    constructor
    · rintro ⟨⟨paired, _⟩, _⟩
      have same : (⟨.object, d.name⟩ : Key) = e.key := Option.some.inj paired
      have name := congrArg Key.name same
      exact name
    · intro name
      have key : e.key = ⟨.object, d.name⟩ := by
        rw [name, ← objectE]
        rfl
      have paired : d.key.companion? = some e.key := (companion?_classOrTrait classD).trans
        (congrArg some key.symm)
      exact ⟨⟨congrArg some key.symm, e, memberE, rfl⟩, Key.companion?_symm paired, d, memberD, rfl⟩
  linked d k member link := by
    obtain ⟨paired, e, there, rfl⟩ := (coherent.companion_iff member).mp link
    exact ⟨e, there, rfl, (coherent.companion_iff there).mpr
      ⟨Key.companion?_symm paired, d, member, rfl⟩⟩
  parents := coherent.parents

/-- A path leads to every container of a sound tree. -/
theorem Sound.inside_iff (sound : c.Sound) : d.Inside c ↔ ∃ path, c.get? path = some d := by
  constructor
  · intro inside
    induction inside with
    | self c => exact ⟨[], rfl⟩
    | @member c d e there _ ih =>
      obtain ⟨path, found⟩ := ih ((sound_iff.mp sound).2 d there)
      have here := sound.coherent.find?_eq_some.mpr ⟨there, rfl⟩
      exact ⟨d.key :: path, by simp only [get?, here, Option.bind_some, found]⟩
  · rintro ⟨path, found⟩
    induction path generalizing c with
    | nil =>
      obtain rfl := Option.some.inj found
      exact .self c
    | cons k path ih =>
      obtain ⟨e, here, below⟩ := Option.bind_eq_some_iff.mp found
      exact .member (sound.coherent.find?_eq_some.mp here).1 (ih (sound.find? here) below)

theorem evolves_apply (c : Container) (change : Change) :
    c.Evolves (c.apply change).container := by
  cases change with
  | declare declaration => exact evolves_declare c declaration
  | ensure k => exact evolves_ensure c k
  | field name type =>
    unfold apply
    dsimp only
    split
    · next added => exact evolves_addField? added
    · exact .refl c
  | method m =>
    unfold apply
    dsimp only
    split
    · next added => exact evolves_addMethod? added
    · exact .refl c
  | comment text => exact evolves_addComment c text
  | parents types => exact evolves_addParents c types
  | typeParams params => exact evolves_addTypeParams c params
  | setTrait value => exact evolves_setTrait c value

theorem evolves_step? {place : Path} {action : Action} {answered : Answered}
    (stepped : c.step? place action = some answered) : c.Evolves answered.container := by
  obtain ⟨owner, found, done⟩ := Option.bind_eq_some_iff.mp stepped
  cases action with
  | change change =>
    obtain rfl := Option.some.inj done
    exact evolves_put found (evolves_apply owner change)
  | members enclosing nodes =>
    obtain ⟨_, _, rfl⟩ := Option.map_eq_some_iff.mp done
    exact evolves_walkBody c ⟨enclosing, place⟩ nodes

/-- A tree that some steps build from the empty root. -/
inductive Reachable : Container → Prop where
  | root : Reachable .root
  | step {tree : Container} {answered : Answered} (place : Path) (action : Action) :
      Reachable tree → tree.step? place action = some answered → Reachable answered.container

theorem Reachable.sound (reached : Reachable c) : c.Sound := by
  induction reached with
  | root => exact sound_fresh _
  | step _ _ _ stepped ih => exact (evolves_step? stepped).sound ih

theorem reachable_consistent (reached : Reachable c) (inside : d.Inside c) : d.Consistent :=
  (reached.sound d inside).consistent

/-- An object whose body has a constructor, an interface declared later, and a field by hand. -/
theorem consistent_after_promotion :
    let object : Node := .varDecl "A" (some (.objectType
      [.constructorMember ⟨[], [], some (.named "A" [])⟩]))
    let interface : Node := .interfaceDecl (.plain "A") [] [.named "B" [], .named "B" []] []
    ∃ answered, ((Container.root.declare object).container.declare interface).container.step?
        [⟨.classOrTrait, "A"⟩] (.change (.field "x" .any)) = some answered ∧
      answered.container.Consistent := by
  intro object interface
  have first : Reachable (Container.root.declare object).container :=
    .step [] (.change (.declare object)) .root rfl
  have second : Reachable ((Container.root.declare object).container.declare interface).container :=
    .step [] (.change (.declare interface)) first rfl
  exact ⟨_, rfl, reachable_consistent
    (.step [⟨.classOrTrait, "A"⟩] (.change (.field "x" .any)) second rfl) (.self _)⟩

end Container
end Facade
