import Facade.Symbol.Path

/-! The index of a container against its members. In an indexed container a lookup finds
exactly what is there, and what is put at a path is found there. -/
namespace Facade

theorem Key.companion?_symm {j k : Key} (paired : k.companion? = some j) :
    j.companion? = some k := by
  obtain ⟨kind, name⟩ := k
  cases kind <;> simp only [companion?, Option.some.injEq, reduceCtorEq] at paired <;>
    subst j <;> rfl

theorem Key.companion?_ne {j k : Key} (paired : k.companion? = some j) : j ≠ k := by
  rintro rfl
  obtain ⟨kind, name⟩ := j
  cases kind <;> simp [companion?] at paired

theorem Key.companion?_name {j k : Key} (paired : k.companion? = some j) : j.name = k.name := by
  obtain ⟨kind, name⟩ := k
  cases kind <;> simp only [companion?, Option.some.injEq, reduceCtorEq] at paired <;>
    subst j <;> rfl

theorem Head.key_eq_object {head : Head} {name : String} :
    head.key = ⟨.object, name⟩ ↔ head = .object name := by
  cases head <;> simp [Head.key]

theorem Head.key_eq_classOrTrait {head : Head} {name : String} :
    head.key = ⟨.classOrTrait, name⟩ ↔ ∃ info, head = .classOrTrait info ∧ info.name = name := by
  cases head <;> simp [Head.key]

/-- A dictionary holds each key once. -/
theorem lookup_eq_some_iff_mem {α β : Type} [DecidableEq α] {entries : List (α × β)} {a : α}
    {b : β} (distinct : (entries.map Prod.fst).Nodup) :
    entries.lookup a = some b ↔ (a, b) ∈ entries := by
  induction entries with
  | nil => simp
  | cons entry rest ih =>
    obtain ⟨x, y⟩ := entry
    simp only [List.map_cons, List.nodup_cons, List.mem_map, Prod.exists, exists_and_right,
      exists_eq_right, not_exists] at distinct
    by_cases same : a = x
    · subst x
      have absent : (a, b) ∉ rest := distinct.1 b
      simp [absent, eq_comm]
    · have other : (a == x) = false := beq_eq_false_iff_ne.mpr same
      simp [List.lookup_cons, other, same, ih distinct.2]

theorem lookup_append_self {α β : Type} [DecidableEq α] {entries : List (α × β)} {a : α} {b : β}
    (absent : entries.lookup a = none) : (entries ++ [(a, b)]).lookup a = some b := by
  simp [List.lookup_append, absent]

theorem lookup_append_of_ne {α β : Type} [DecidableEq α] (entries : List (α × β)) {a x : α}
    {b : β} (differ : x ≠ a) : (entries ++ [(a, b)]).lookup x = entries.lookup x := by
  have other : (x == a) = false := beq_eq_false_iff_ne.mpr differ
  simp [List.lookup_append, List.lookup_cons, other]

theorem nodup_keys_append {α β : Type} [DecidableEq α] {entries : List (α × β)} {a : α} {b : β}
    (distinct : (entries.map Prod.fst).Nodup) (absent : entries.lookup a = none) :
    ((entries ++ [(a, b)]).map Prod.fst).Nodup := by
  have fresh : a ∉ entries.map Prod.fst := by
    intro member
    obtain ⟨⟨x, y⟩, listed, rfl⟩ := List.mem_map.mp member
    rw [(lookup_eq_some_iff_mem distinct).mpr listed] at absent
    contradiction
  simp only [List.map_append, List.map_cons, List.map_nil, List.nodup_append, List.nodup_cons,
    List.not_mem_nil, not_false_eq_true, List.nodup_nil, and_self, List.mem_singleton]
  refine ⟨distinct, trivial, ?_⟩
  rintro x member y rfl rfl
  exact fresh member

namespace Container

theorem key_fresh (k : Key) : (fresh k).key = k := by
  obtain ⟨kind, name⟩ := k
  cases kind <;> rfl

/-- The index lists the members that are looked up, each once and at its position. -/
structure Indexed (c : Container) : Prop where
  containers : ∀ k i, (k, i) ∈ c.index.containers ↔
    ∃ d, c.members[i]? = some (.container d) ∧ d.key = k
  keys : (c.index.containers.map Prod.fst).Nodup
  fields : ∀ name i, (name, i) ∈ c.index.fields ↔
    ∃ type, c.members[i]? = some (.field name type)
  fieldNames : (c.index.fields.map Prod.fst).Nodup
  overloads : c.index.overloads = c.methods.map Method.overload
  distinct : c.index.overloads.Nodup

variable {c d e new old : Container} {j k : Key}

namespace Indexed

theorem place?_eq_some {i : Nat} (indexed : c.Indexed) :
    c.place? k = some i ↔ ∃ d, c.members[i]? = some (.container d) ∧ d.key = k :=
  (lookup_eq_some_iff_mem indexed.keys).trans (indexed.containers k i)

theorem find?_eq_some (indexed : c.Indexed) :
    c.find? k = some d ↔ .container d ∈ c.members ∧ d.key = k := by
  simp only [find?, Option.bind_eq_some_iff]
  constructor
  · rintro ⟨i, placed, s, here, same⟩
    obtain ⟨e, there, key⟩ := indexed.place?_eq_some.mp placed
    obtain rfl := Option.some.inj (here.symm.trans there)
    obtain rfl := Option.some.inj same
    exact ⟨List.mem_of_getElem? there, key⟩
  · rintro ⟨member, key⟩
    obtain ⟨i, here⟩ := List.mem_iff_getElem?.mp member
    exact ⟨i, indexed.place?_eq_some.mpr ⟨d, here, key⟩, _, here, rfl⟩

theorem key_of_find? (indexed : c.Indexed) (found : c.find? k = some d) : d.key = k :=
  (indexed.find?_eq_some.mp found).2

theorem isSome_place? (indexed : c.Indexed) : (c.place? k).isSome = (c.find? k).isSome := by
  apply Bool.eq_iff_iff.mpr
  simp only [Option.isSome_iff_exists, indexed.place?_eq_some, indexed.find?_eq_some,
    List.mem_iff_getElem?]
  constructor
  · rintro ⟨i, d, here, key⟩
    exact ⟨d, ⟨i, here⟩, key⟩
  · rintro ⟨d, ⟨i, here⟩, key⟩
    exact ⟨i, d, here, key⟩

/-- No two members share a key. -/
theorem eq_of_key_eq (indexed : c.Indexed) {i i' : Nat}
    (here : c.members[i]? = some (.container d)) (there : c.members[i']? = some (.container e))
    (same : d.key = e.key) : i = i' := by
  have first := indexed.place?_eq_some.mpr ⟨d, here, rfl⟩
  have second := indexed.place?_eq_some.mpr ⟨e, there, same.symm⟩
  exact Option.some.inj (first.symm.trans second)

/-- No two keys lead to one place. -/
theorem place?_injective {i : Nat} (indexed : c.Indexed) (first : c.place? j = some i)
    (second : c.place? k = some i) : j = k := by
  obtain ⟨d, here, key⟩ := indexed.place?_eq_some.mp first
  obtain ⟨e, there, key'⟩ := indexed.place?_eq_some.mp second
  obtain rfl := Symbol.container.inj (Option.some.inj (here.symm.trans there))
  exact key.symm.trans key'

end Indexed

/-! What stands under one key says nothing about what stands under another. -/

@[simp] theorem head_replace : (c.replace k new).head = c.head := by
  unfold replace
  split <;> rfl

@[simp] theorem companion_replace : (c.replace k new).companion = c.companion := by
  unfold replace
  split <;> rfl

@[simp] theorem index_replace : (c.replace k new).index = c.index := by
  unfold replace
  split <;> rfl

@[simp] theorem place?_replace : (c.replace k new).place? j = c.place? j := by
  simp only [place?, index_replace]

@[simp] theorem partner?_replace : (c.replace k new).partner? j = c.partner? j := by
  simp only [partner?, place?_replace]

@[simp] theorem head_modify {f : Container → Container} : (c.modify k f).head = c.head := by
  unfold modify
  split <;> simp

@[simp] theorem companion_modify {f : Container → Container} :
    (c.modify k f).companion = c.companion := by
  unfold modify
  split <;> simp

@[simp] theorem index_modify {f : Container → Container} : (c.modify k f).index = c.index := by
  unfold modify
  split <;> simp

@[simp] theorem place?_modify {f : Container → Container} :
    (c.modify k f).place? j = c.place? j := by
  simp only [place?, index_modify]

theorem exists_of_find? (found : c.find? k = some d) :
    ∃ i, c.place? k = some i ∧ c.members[i]? = some (.container d) := by
  simp only [find?, Option.bind_eq_some_iff] at found
  obtain ⟨i, placed, s, here, same⟩ := found
  cases s with
  | container e =>
    obtain rfl := Option.some.inj same
    exact ⟨i, placed, here⟩
  | comment text | field name type | method m => contradiction

theorem find?_of_place? {i : Nat} (placed : c.place? k = some i) :
    c.find? k = c.members[i]?.bind (·.container?) := by
  simp only [find?, placed, Option.bind_some]

theorem replace_of_place? {i : Nat} (placed : c.place? k = some i) :
    c.replace k new = { c with members := c.members.set i (.container new) } := by
  simp only [replace, placed]

theorem replace_of_absent (absent : c.place? k = none) : c.replace k new = c := by
  simp only [replace, absent]

theorem modify_of_find? {f : Container → Container} (found : c.find? k = some d) :
    c.modify k f = c.replace k (f d) := by
  simp only [modify, found]

theorem modify_of_absent {f : Container → Container} (absent : c.find? k = none) :
    c.modify k f = c := by
  simp only [modify, absent]

theorem find?_replace_self (found : c.find? k = some old) :
    (c.replace k new).find? k = some new := by
  obtain ⟨i, placed, here⟩ := exists_of_find? found
  have bound : i < c.members.length := (List.getElem?_eq_some_iff.mp here).1
  rw [find?_of_place? (place?_replace.trans placed), replace_of_place? placed]
  simp [bound, Symbol.container?]

theorem Indexed.find?_replace_of_ne (indexed : c.Indexed) (differ : j ≠ k) :
    (c.replace k new).find? j = c.find? j := by
  cases placed : c.place? k with
  | none => rw [replace_of_absent placed]
  | some i =>
    rw [replace_of_place? placed]
    cases there : c.place? j with
    | none => simp only [find?, place?] at there ⊢; simp only [there, Option.bind_none]
    | some n =>
      have apart : i ≠ n := by
        rintro rfl
        exact differ (indexed.place?_injective there placed)
      rw [find?_of_place? there, find?_of_place? (c := { c with members := _ }) (i := n) there]
      simp only [List.getElem?_set_ne apart]

end Container

/-- The container under a key gives way to another, and all else stays. -/
def Symbol.supplant (k : Key) (new : Container) : Symbol → Symbol
  | .container c => .container (if c.key = k then new else c)
  | s => s

namespace Container

variable {c d e new old : Container} {j k : Key}

theorem Indexed.members_replace (indexed : c.Indexed) (found : c.find? k = some old) :
    (c.replace k new).members = c.members.map (Symbol.supplant k new) := by
  obtain ⟨i, placed, here⟩ := exists_of_find? found
  have bound : i < c.members.length := (List.getElem?_eq_some_iff.mp here).1
  have key : old.key = k := indexed.key_of_find? found
  rw [replace_of_place? placed]
  apply List.ext_getElem?
  intro n
  by_cases same : i = n
  · subst n
    rw [List.getElem?_set_self bound, List.getElem?_map, here]
    simp only [Option.map_some, Symbol.supplant, key, ↓reduceIte]
  · simp only [List.getElem?_set_ne same, List.getElem?_map]
    cases there : c.members[n]? with
    | none => rfl
    | some s =>
      cases s with
      | container e =>
        have differ : e.key ≠ k := fun shared =>
          same (indexed.eq_of_key_eq here there (key.trans shared.symm))
        simp only [Option.map_some, Symbol.supplant, differ, ↓reduceIte]
      | comment text | field name type | method m => rfl

theorem find?_modify_self {f : Container → Container} (found : c.find? k = some d) :
    (c.modify k f).find? k = some (f d) := by
  rw [modify_of_find? found, find?_replace_self found]

theorem Indexed.find?_modify_of_ne {f : Container → Container} (indexed : c.Indexed)
    (differ : j ≠ k) : (c.modify k f).find? j = c.find? j := by
  cases found : c.find? k with
  | none => rw [modify_of_absent found]
  | some d => rw [modify_of_find? found, indexed.find?_replace_of_ne differ]

theorem replace_replace_self : (c.replace k old).replace k new = c.replace k new := by
  cases placed : c.place? k with
  | none => rw [replace_of_absent placed]
  | some i =>
    rw [replace_of_place? (place?_replace.trans placed), replace_of_place? placed,
      replace_of_place? placed]
    simp only [List.set_set]

theorem replace_self (found : c.find? k = some d) : c.replace k d = c := by
  obtain ⟨i, placed, here⟩ := exists_of_find? found
  obtain ⟨bound, same⟩ := List.getElem?_eq_some_iff.mp here
  rw [replace_of_place? placed, ← same, List.set_getElem_self]
  cases c
  rfl

theorem get?_key (c : Container) (k : Key) : c.get? [k] = c.find? k := by
  simp only [get?, Option.bind_fun_some]

theorem get?_concat (c : Container) (path : Path) (k : Key) :
    c.get? (path ++ [k]) = (c.get? path).bind (·.find? k) := by
  induction path generalizing c with
  | nil => exact get?_key c k
  | cons j path ih =>
    rw [List.cons_append, get?, get?]
    cases c.find? j with
    | none => rfl
    | some d => exact ih d

theorem modifyAt_key (c : Container) (k : Key) (f : Container → Container) :
    c.modifyAt [k] f = c.modify k f := by
  unfold modifyAt
  rw [get?_key]
  cases found : c.find? k with
  | none => rw [modify_of_absent found]
  | some d => simp only [put, modify, found]

theorem put_self {path : Path} (found : c.get? path = some d) : c.put d path = c := by
  induction path generalizing c with
  | nil => exact (Option.some.inj found).symm
  | cons k path ih =>
    obtain ⟨inner, here, below⟩ := Option.bind_eq_some_iff.mp found
    rw [put, modify_of_find? here, ih below, replace_self here]

theorem get?_put_self {path : Path} (found : c.get? path = some d) :
    (c.put new path).get? path = some new := by
  induction path generalizing c with
  | nil => rfl
  | cons k path ih =>
    obtain ⟨inner, here, below⟩ := Option.bind_eq_some_iff.mp found
    rw [put, modify_of_find? here, get?, find?_replace_self here]
    exact ih below

theorem put_put_self {path : Path} (found : c.get? path = some d) :
    (c.put old path).put new path = c.put new path := by
  induction path generalizing c with
  | nil => rfl
  | cons k path ih =>
    obtain ⟨inner, here, below⟩ := Option.bind_eq_some_iff.mp found
    simp only [put, modify_of_find? here, modify_of_find? (find?_replace_self here),
      replace_replace_self, ih below]

end Container
end Facade
