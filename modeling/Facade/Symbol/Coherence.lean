import Facade.Symbol.Lookup

/-! A coherent container is indexed, links its members to each other's companions, and lists
no parent twice. Every change to one container keeps it coherent. -/
namespace Facade

theorem getElem?_concat_eq_some {α : Type} {items : List α} {last item : α} {i : Nat} :
    (items ++ [last])[i]? = some item ↔
      items[i]? = some item ∨ i = items.length ∧ last = item := by
  rcases Nat.lt_trichotomy i items.length with less | rfl | more
  · simp [List.getElem?_append_left less, Nat.ne_of_lt less]
  · simp
  · have none : items[i]? = none := List.getElem?_eq_none (Nat.le_of_lt more)
    simp [List.getElem?_append_right (Nat.le_of_lt more), none, Nat.ne_of_gt more,
      Nat.sub_ne_zero_of_lt more]

namespace Container

variable {c d new old : Container} {j k : Key}

theorem mem_methods {m : Method} : m ∈ c.methods ↔ .method m ∈ c.members := by
  rw [methods, List.mem_filterMap]
  refine ⟨?_, fun member => ⟨_, member, rfl⟩⟩
  rintro ⟨s, member, same⟩
  cases s with
  | method n => exact Option.some.inj same ▸ member
  | comment text | field name type | container e => contradiction

theorem indexed_fresh (k : Key) : (fresh k).Indexed where
  containers := by simp [fresh]
  keys := .nil
  fields := by simp [fresh]
  fieldNames := .nil
  overloads := rfl
  distinct := .nil

namespace Indexed

/-- Being indexed says nothing about the head. -/
theorem of_members_eq (indexed : c.Indexed) (members : d.members = c.members)
    (index : d.index = c.index) : d.Indexed where
  containers := by rw [members, index]; exact indexed.containers
  keys := by rw [index]; exact indexed.keys
  fields := by rw [members, index]; exact indexed.fields
  fieldNames := by rw [index]; exact indexed.fieldNames
  overloads := by rw [methods, members, index]; exact indexed.overloads
  distinct := by rw [index]; exact indexed.distinct

theorem addComment (indexed : c.Indexed) (text : String) : (c.addComment text).Indexed where
  containers k i := by
    simpa [Container.addComment, append, getElem?_concat_eq_some] using indexed.containers k i
  keys := indexed.keys
  fields name i := by
    simpa [Container.addComment, append, getElem?_concat_eq_some] using indexed.fields name i
  fieldNames := indexed.fieldNames
  overloads := by
    simpa [Container.addComment, append, methods, List.filterMap_cons, Symbol.method?] using
      indexed.overloads
  distinct := indexed.distinct

theorem addField (indexed : c.Indexed) {name : String} (type : HostType)
    (absent : c.hasField name = false) : (c.addField name type).Indexed where
  containers k i := by
    simpa [Container.addField, append, getElem?_concat_eq_some] using indexed.containers k i
  keys := indexed.keys
  fields other i := by
    simp only [Container.addField, append, List.mem_append, List.mem_singleton, Prod.mk.injEq,
      getElem?_concat_eq_some, exists_or, indexed.fields, Symbol.field.injEq]
    grind
  fieldNames := by
    refine nodup_keys_append indexed.fieldNames ?_
    simpa [hasField] using absent
  overloads := by
    simpa [Container.addField, append, methods, List.filterMap_cons, Symbol.method?] using
      indexed.overloads
  distinct := indexed.distinct

theorem addMethod (indexed : c.Indexed) {m : Method}
    (absent : c.hasOverload m.overload = false) : (c.addMethod m).Indexed where
  containers k i := by
    simpa [Container.addMethod, append, getElem?_concat_eq_some] using indexed.containers k i
  keys := indexed.keys
  fields name i := by
    simpa [Container.addMethod, append, getElem?_concat_eq_some] using indexed.fields name i
  fieldNames := indexed.fieldNames
  overloads := by
    simp [Container.addMethod, append, methods, Symbol.method?, indexed.overloads]
  distinct := by
    have new : m.overload ∉ c.index.overloads := by simpa [hasOverload] using absent
    simp only [Container.addMethod, append, List.nodup_append, List.nodup_cons, List.not_mem_nil,
      not_false_eq_true, List.nodup_nil, and_self, List.mem_singleton]
    refine ⟨indexed.distinct, trivial, ?_⟩
    rintro o member _ rfl rfl
    exact new member

theorem create (indexed : c.Indexed) (absent : c.place? k = none) : (c.create k).Indexed where
  containers other i := by
    simp only [Container.create, append, List.mem_append, List.mem_singleton, Prod.mk.injEq,
      getElem?_concat_eq_some, indexed.containers, Symbol.container.injEq]
    have key := key_fresh k
    grind
  keys := nodup_keys_append indexed.keys absent
  fields name i := by
    simpa [Container.create, append, getElem?_concat_eq_some] using indexed.fields name i
  fieldNames := indexed.fieldNames
  overloads := by
    simpa [Container.create, append, methods, List.filterMap_cons, Symbol.method?] using
      indexed.overloads
  distinct := indexed.distinct

theorem hasField_iff (indexed : c.Indexed) {name : String} :
    c.hasField name = true ↔ ∃ type, .field name type ∈ c.members := by
  simp only [hasField, Option.isSome_iff_exists, lookup_eq_some_iff_mem indexed.fieldNames,
    indexed.fields, List.mem_iff_getElem?]
  exact exists_comm

theorem mem_overloads (indexed : c.Indexed) {o : Method.Overload} :
    o ∈ c.index.overloads ↔ ∃ m, .method m ∈ c.members ∧ m.overload = o := by
  simp only [indexed.overloads, List.mem_map, mem_methods]

theorem methods_replace (indexed : c.Indexed) (found : c.find? k = some old) :
    (c.replace k new).methods = c.methods := by
  have same : Symbol.method? ∘ Symbol.supplant k new = Symbol.method? := by
    funext s
    cases s <;> rfl
  simp only [methods, indexed.members_replace found, List.filterMap_map, same]

theorem replace (indexed : c.Indexed) (found : c.find? k = some old) (key : new.key = k) :
    (c.replace k new).Indexed where
  containers other i := by
    simp only [index_replace, indexed.containers, indexed.members_replace found,
      List.getElem?_map, Option.map_eq_some_iff]
    constructor
    · rintro ⟨d, here, rfl⟩
      refine ⟨if d.key = k then new else d, ⟨_, here, rfl⟩, ?_⟩
      split
      · simp_all
      · rfl
    · rintro ⟨d, ⟨s, here, same⟩, rfl⟩
      cases s with
      | container e =>
        refine ⟨e, here, ?_⟩
        simp only [Symbol.supplant, Symbol.container.injEq] at same
        split at same <;> simp_all
      | comment text | field name type | method m => contradiction
  keys := by rw [index_replace]; exact indexed.keys
  fields name i := by
    simp only [index_replace, indexed.fields, indexed.members_replace found,
      List.getElem?_map, Option.map_eq_some_iff]
    constructor
    · rintro ⟨type, here⟩
      exact ⟨type, _, here, rfl⟩
    · rintro ⟨type, s, here, same⟩
      cases s with
      | field n t =>
        obtain ⟨rfl, rfl⟩ := Symbol.field.inj same
        exact ⟨_, here⟩
      | comment text | container e | method m => contradiction
  fieldNames := by rw [index_replace]; exact indexed.fieldNames
  overloads := by rw [index_replace, indexed.methods_replace found]; exact indexed.overloads
  distinct := by rw [index_replace]; exact indexed.distinct

theorem modify (indexed : c.Indexed) {f : Container → Container}
    (key : ∀ d, (f d).key = d.key) : (c.modify k f).Indexed := by
  cases found : c.find? k with
  | none => rwa [modify_of_absent found]
  | some d =>
    rw [modify_of_find? found]
    exact indexed.replace found ((key d).trans (indexed.key_of_find? found))

theorem linkOne (indexed : c.Indexed) (j k : Key) : (c.modify j (linkTo k)).Indexed :=
  indexed.modify fun _ => rfl

theorem mem_modify (indexed : c.Indexed) {f : Container → Container}
    (member : .container d ∈ (c.modify k f).members) :
    (∃ e, .container e ∈ c.members ∧ e.key = k ∧ d = f e) ∨
      .container d ∈ c.members ∧ d.key ≠ k := by
  cases found : c.find? k with
  | none =>
    rw [modify_of_absent found] at member
    refine .inr ⟨member, fun key => ?_⟩
    rw [indexed.find?_eq_some.mpr ⟨member, key⟩] at found
    contradiction
  | some old =>
    obtain ⟨there, key⟩ := indexed.find?_eq_some.mp found
    rw [modify_of_find? found, indexed.members_replace found, List.mem_map] at member
    obtain ⟨s, here, same⟩ := member
    cases s with
    | container e =>
      simp only [Symbol.supplant, Symbol.container.injEq] at same
      split at same
      · exact .inl ⟨old, there, key, same.symm⟩
      · next differ => exact .inr ⟨same ▸ here, same ▸ differ⟩
    | comment text | field name type | method m => contradiction

end Indexed

theorem place?_create_self (absent : c.place? k = none) :
    (c.create k).place? k = some c.members.length :=
  lookup_append_self absent

theorem place?_create_of_ne (differ : j ≠ k) : (c.create k).place? j = c.place? j :=
  lookup_append_of_ne _ differ

theorem find?_grown (found : c.find? k = some old) (s : Symbol) {index : Index}
    (kept : index.containers.lookup k = c.place? k) :
    { c.append s with index }.find? k = some old := by
  obtain ⟨i, placed, here⟩ := exists_of_find? found
  have bound : i < c.members.length := (List.getElem?_eq_some_iff.mp here).1
  have placed' : { c.append s with index }.place? k = some i := kept.trans placed
  rw [find?_of_place? placed']
  simp only [append, List.getElem?_append_left bound, here, Option.bind_some, Symbol.container?]

theorem find?_create_of_ne (found : c.find? k = some old) (differ : j ≠ k) :
    (c.create j).find? k = some old :=
  find?_grown found (.container (fresh j)) (place?_create_of_ne differ.symm)

theorem find?_create_self (absent : c.place? k = none) :
    (c.create k).find? k = some (fresh k) := by
  rw [find?_of_place? (place?_create_self absent)]
  simp [create, append, Symbol.container?]

theorem Indexed.place?_eq_none (indexed : c.Indexed) (absent : c.find? k = none) :
    c.place? k = none := by
  have places := indexed.isSome_place? (k := k)
  rw [absent, Option.isSome_none] at places
  simpa using places

theorem Indexed.find?_create_of_ne_eq (indexed : c.Indexed) (differ : j ≠ k) :
    (c.create k).find? j = c.find? j := by
  cases found : c.find? j with
  | some d => exact find?_create_of_ne found differ.symm
  | none =>
    have elsewhere : (c.create k).place? j = none :=
      (place?_create_of_ne differ).trans (indexed.place?_eq_none found)
    rw [Container.find?, elsewhere, Option.bind_none]

theorem mem_create :
    .container d ∈ (c.create k).members ↔ .container d ∈ c.members ∨ d = fresh k := by
  simp [create, append]

theorem partner?_create_of_ne (differ : j.companion? ≠ some k) :
    (c.create k).partner? j = c.partner? j := by
  unfold partner?
  cases paired : j.companion? with
  | none => rfl
  | some i =>
    have apart : i ≠ k := fun same => differ (same ▸ paired)
    simp only [Option.filter, place?_create_of_ne apart]

@[simp] theorem partner?_modify {f : Container → Container} :
    (c.modify k f).partner? j = c.partner? j := by
  simp only [partner?, place?_modify]

theorem partner?_eq_some : c.partner? k = some j ↔
    k.companion? = some j ∧ (c.place? j).isSome = true := by
  simp only [partner?, Option.filter_eq_some_iff]

theorem ensure_of_place? {i : Nat} (placed : c.place? k = some i) : c.ensure k = c := by
  simp only [ensure, placed, Option.isSome_some, ↓reduceIte]

theorem ensure_of_find? (found : c.find? k = some old) : c.ensure k = c := by
  obtain ⟨i, placed, _⟩ := exists_of_find? found
  exact ensure_of_place? placed

theorem ensure_alone (absent : c.place? k = none) (alone : c.partner? k = none) :
    c.ensure k = c.create k := by
  simp only [ensure, absent, alone, Option.isSome_none, Bool.false_eq_true, ↓reduceIte]

theorem ensure_linked (absent : c.place? k = none) (met : c.partner? k = some j) :
    c.ensure k = (c.create k).link j k := by
  simp only [ensure, absent, met, Option.isSome_none, Bool.false_eq_true, ↓reduceIte]

/-- A member has its companion as soon as that is a member, too. -/
structure Coherent (c : Container) : Prop extends c.Indexed where
  linked : ∀ d, .container d ∈ c.members → d.companion = c.partner? d.key
  parents : ∀ info, c.head = .classOrTrait info → info.parents.Nodup

theorem coherent_fresh (k : Key) : (fresh k).Coherent where
  toIndexed := indexed_fresh k
  linked := by simp [fresh]
  parents info head := by
    obtain ⟨kind, name⟩ := k
    cases kind <;> simp only [fresh, Head.fresh, Head.classOrTrait.injEq, reduceCtorEq] at head
    subst info
    exact .nil

namespace Coherent

theorem addComment (coherent : c.Coherent) (text : String) : (c.addComment text).Coherent where
  toIndexed := coherent.toIndexed.addComment text
  linked d member := coherent.linked d (by simpa [Container.addComment, append] using member)
  parents := coherent.parents

theorem addField (coherent : c.Coherent) {name : String} (type : HostType)
    (absent : c.hasField name = false) : (c.addField name type).Coherent where
  toIndexed := coherent.toIndexed.addField type absent
  linked d member := coherent.linked d (by simpa [Container.addField, append] using member)
  parents := coherent.parents

theorem addMethod (coherent : c.Coherent) {m : Method}
    (absent : c.hasOverload m.overload = false) : (c.addMethod m).Coherent where
  toIndexed := coherent.toIndexed.addMethod absent
  linked d member := coherent.linked d (by simpa [Container.addMethod, append] using member)
  parents := coherent.parents

theorem replace (coherent : c.Coherent) (found : c.find? k = some old) (key : new.key = old.key)
    (companion : new.companion = old.companion) : (c.replace k new).Coherent where
  toIndexed := coherent.toIndexed.replace found (key.trans (coherent.key_of_find? found))
  linked d member := by
    rw [partner?_replace]
    rw [coherent.members_replace found, List.mem_map] at member
    obtain ⟨s, here, same⟩ := member
    cases s with
    | container e =>
      simp only [Symbol.supplant, Symbol.container.injEq] at same
      split at same
      · subst d
        rw [companion, key]
        exact coherent.linked old (coherent.find?_eq_some.mp found).1
      · exact coherent.linked d (same ▸ here)
    | comment text | field name type | method m => contradiction
  parents info head := coherent.parents info (by simpa using head)

theorem create_alone (coherent : c.Coherent) (absent : c.place? k = none)
    (alone : c.partner? k = none) : (c.create k).Coherent where
  toIndexed := coherent.toIndexed.create absent
  linked d member := by
    rcases mem_create.mp member with there | rfl
    · have apart : d.key.companion? ≠ some k := by
        intro paired
        obtain ⟨i, here⟩ := List.mem_iff_getElem?.mp there
        have placed := coherent.place?_eq_some.mpr ⟨d, here, rfl⟩
        have met := partner?_eq_some.mpr
          ⟨Key.companion?_symm paired, Option.isSome_iff_exists.mpr ⟨i, placed⟩⟩
        rw [alone] at met
        contradiction
      rw [partner?_create_of_ne apart]
      exact coherent.linked d there
    · have apart : (fresh k).key.companion? ≠ some k := by
        rw [key_fresh]
        exact fun paired => Key.companion?_ne paired rfl
      rw [partner?_create_of_ne apart, key_fresh, alone]
      rfl
  parents := coherent.parents

theorem create_linked (coherent : c.Coherent) (absent : c.place? k = none)
    (met : c.partner? k = some j) : ((c.create k).link j k).Coherent where
  toIndexed := ((coherent.toIndexed.create absent).linkOne j k).linkOne k j
  linked d member := by
    obtain ⟨paired, there⟩ := partner?_eq_some.mp met
    have apart := Key.companion?_ne paired
    have made := coherent.toIndexed.create absent
    have first : (c.create k).partner? k = some j :=
      partner?_eq_some.mpr ⟨paired, by rwa [place?_create_of_ne apart]⟩
    have second : (c.create k).partner? j = some k :=
      partner?_eq_some.mpr ⟨Key.companion?_symm paired, by simp [place?_create_self absent]⟩
    simp only [link, partner?_modify]
    -- The two ends of the new link are `k` and `j`, and no other member gains a companion.
    rcases (made.linkOne j k).mem_modify member with ⟨e, _, key, rfl⟩ | ⟨outer, atK⟩
    · rw [show (linkTo j e).key = k from key]
      exact first.symm
    · rcases made.mem_modify outer with ⟨e, _, key, rfl⟩ | ⟨inner, atJ⟩
      · rw [show (linkTo k e).key = j from key]
        exact second.symm
      · rcases mem_create.mp inner with old | rfl
        · have other : d.key.companion? ≠ some k := fun paired' => by
            have back := (Key.companion?_symm paired').symm.trans paired
            exact atJ (Option.some.inj back)
          rw [partner?_create_of_ne other]
          exact coherent.linked d old
        · exact absurd (key_fresh k) atK
  parents info head := by
    simp only [link, head_modify] at head
    exact coherent.parents info head

theorem ensure (coherent : c.Coherent) (k : Key) : (c.ensure k).Coherent := by
  cases placed : c.place? k with
  | some i => rwa [ensure_of_place? placed]
  | none =>
    cases met : c.partner? k with
    | none =>
      rw [ensure_alone placed met]
      exact coherent.create_alone placed met
    | some j =>
      rw [ensure_linked placed met]
      exact coherent.create_linked placed met

theorem exists_find?_ensure (coherent : c.Coherent) (k : Key) :
    ∃ d, (c.ensure k).find? k = some d ∧ d.key = k := by
  have placed : ((c.ensure k).place? k).isSome = true := by
    cases placed : c.place? k with
    | some i => simp only [ensure_of_place? placed, placed, Option.isSome_some]
    | none =>
      have created := place?_create_self placed
      cases met : c.partner? k with
      | none => simp only [ensure_alone placed met, created, Option.isSome_some]
      | some j =>
        simp only [ensure_linked placed met, link, place?_modify, created, Option.isSome_some]
  rw [(coherent.ensure k).isSome_place?] at placed
  obtain ⟨d, found⟩ := Option.isSome_iff_exists.mp placed
  exact ⟨d, found, (coherent.ensure k).key_of_find? found⟩

end Coherent
end Container
end Facade
