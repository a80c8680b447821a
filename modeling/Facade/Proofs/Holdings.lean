import Facade.Proofs.Marks
import Mathlib.Data.List.Induction

/-! What a container holds of the entries that came to it: the first field of each name and the
first method of each overload, in the order in which they came, and of the types it was to
inherit from the first of each. Constructors, which come to a class from elsewhere, and
placeholders make no difference to that. -/
namespace Facade
open Ambient (Node Signature)

/-! ## The first of each -/

/-- Of the items with one key only the first. -/
def firstOfEach {α β : Type} [DecidableEq β] (key : α → β) (items : List α) : List α :=
  items.eraseDupsBy fun later earlier => key later == key earlier

section FirstOfEach

variable {α β : Type} [DecidableEq β] {key : α → β} {items : List α} {a : α}

theorem firstOfEach_cons (key : α → β) (a : α) (items : List α) :
    firstOfEach key (a :: items) = a :: firstOfEach key (items.filter (key · ≠ key a)) := by
  simp only [firstOfEach, List.eraseDupsBy_cons, beq_eq_false_iff_ne]

/-- A list that is read from the left meets its last item last. -/
theorem firstOfEach_concat (key : α → β) (items : List α) (a : α) :
    firstOfEach key (items ++ [a]) =
      if key a ∈ items.map key then firstOfEach key items else firstOfEach key items ++ [a] := by
  -- After the head comes a filtered tail, so that the induction is on the length.
  generalize length : items.length = n
  induction n using Nat.strongRecOn generalizing items with
  | ind n ih =>
    cases items with
    | nil => rfl
    | cons b items =>
      rw [List.cons_append, firstOfEach_cons, firstOfEach_cons, List.filter_append]
      by_cases same : key a = key b
      · simp [same]
      · have shorter : (items.filter (key · ≠ key b)).length < n := by
          rw [← length]
          exact Nat.lt_succ_of_le (List.length_filter_le _ _)
        have last : [a].filter (key · ≠ key b) = [a] := by simp [same]
        have among : key a ∈ (items.filter (key · ≠ key b)).map key ↔
            key a ∈ (b :: items).map key := by
          simp only [List.mem_map, List.mem_filter, List.mem_cons, decide_eq_true_eq]
          constructor
          · rintro ⟨c, ⟨listed, _⟩, shared⟩
            exact ⟨c, .inr listed, shared⟩
          · rintro ⟨c, rfl | listed, shared⟩
            · exact absurd shared.symm same
            · exact ⟨c, ⟨listed, shared ▸ same⟩, shared⟩
        rw [last, ih _ shorter _ rfl, if_congr among rfl rfl]
        split <;> rfl

theorem mem_map_firstOfEach (key : α → β) {items : List α} {k : β} :
    k ∈ (firstOfEach key items).map key ↔ k ∈ items.map key := by
  induction items using List.reverseRec with
  | nil => rfl
  | append_singleton items a ih =>
    rw [firstOfEach_concat]
    split
    · next taken =>
      rw [ih, List.map_append, List.mem_append]
      simp only [List.map_cons, List.map_nil, List.mem_singleton]
      exact ⟨.inl, fun listed => listed.elim id (· ▸ taken)⟩
    · simp only [List.map_append, List.mem_append, ih]

theorem firstOfEach_subset (key : α → β) (items : List α) : firstOfEach key items ⊆ items := by
  induction items using List.reverseRec with
  | nil => exact List.Subset.refl _
  | append_singleton items a ih =>
    rw [firstOfEach_concat]
    split
    · exact List.Subset.trans ih (List.subset_append_left _ _)
    · exact List.append_subset.mpr
        ⟨List.Subset.trans ih (List.subset_append_left _ _), List.subset_append_right _ _⟩

/-- One more item comes to what is kept, and is kept if nothing there has its key. -/
def keepFirst (key : α → β) (kept : List α) : Option α → List α
  | none => kept
  | some a => if key a ∈ kept.map key then kept else kept ++ [a]

theorem firstOfEach_filterMap_concat {γ : Type} (key : α → β) (pick : γ → Option α)
    (items : List γ) (last : γ) :
    firstOfEach key ((items ++ [last]).filterMap pick) =
      keepFirst key (firstOfEach key (items.filterMap pick)) (pick last) := by
  cases picked : pick last with
  | none => simp [picked, keepFirst]
  | some a =>
    have brought : [last].filterMap pick = [a] := by simp [picked]
    rw [List.filterMap_append, brought, firstOfEach_concat, keepFirst]
    exact if_congr (mem_map_firstOfEach key).symm rfl rfl

end FirstOfEach

/-! ## What members bring -/

/-- The field that a property declares. -/
def Ambient.Node.field? : Node → Option (String × HostType)
  | .propertyMember name _ type =>
      if name = "prototype" then none else some (escapeApply name, type.hostType .inner)
  | _ => none

/-- A signature without parameters of constant types declares a method. -/
def Ambient.Signature.general? (s : Signature) (name : String) : Option Method :=
  if s.params.any (·.isConstant) then none else some (s.method name)

theorem Ambient.Signature.general?_eq_some {s : Signature} {name : String} {m : Method} :
    s.general? name = some m ↔ s.params.any (·.isConstant) = false ∧ m = s.method name := by
  unfold general?
  split
  · next constant => simp [constant]
  · next general => simp [Bool.eq_false_iff.mpr general, eq_comm]

/-- The methods that calls, functions and index signatures declare. -/
def Ambient.Node.methods : Node → List Method
  | .callMember s => (s.general? Method.applyName).toList
  | .functionMember name _ s => (s.general? (escapeApply name)).toList
  | .indexMember name index value =>
      accessors name (index.hostType .inner) (value.hostType .inner)
  | _ => []

def Symbol.field? : Symbol → Option (String × HostType)
  | .field name type => some (name, type)
  | _ => none

def Entry.field? : Entry → Option (String × HostType)
  | .field name type => some (name, type)
  | _ => none

/-- Constructors stand apart: they come to a class from the bodies of its companion. -/
def Method.isOrdinary (m : Method) : Bool := m.name != Method.constructorName

def Entry.ordinary? : Entry → Option Method
  | .method m => if m.isOrdinary then some m else none
  | _ => none

/-- An entry that brings neither a field nor an ordinary method. -/
structure Entry.Silent (entry : Entry) : Prop where
  field? : entry.field? = none
  ordinary? : entry.ordinary? = none

theorem Entry.silent_placeholder (node : Node) : (Entry.placeholder node).Silent := ⟨rfl, rfl⟩

namespace Ambient

theorem Signature.silent_constructorEntry (s : Signature) : s.constructorEntry.Silent := by
  unfold constructorEntry entry
  split <;> exact ⟨rfl, rfl⟩

theorem Signature.field?_entry (s : Signature) (name : String) : (s.entry name).field? = none := by
  unfold entry
  split <;> rfl

theorem Signature.filterMap_ordinary?_entry (s : Signature) (name : String) :
    [s.entry name].filterMap Entry.ordinary? = (s.general? name).toList.filter (·.isOrdinary) := by
  unfold entry general?
  split
  · rfl
  · cases ordinary : (s.method name).isOrdinary <;> simp [Entry.ordinary?, ordinary]

theorem Node.filterMap_field?_entries (node : Node) :
    node.entries.filterMap Entry.field? = node.field?.toList := by
  cases node with
  | propertyMember name optional type =>
    simp only [entries, Node.field?, beq_iff_eq]
    split <;> rfl
  | callMember s | functionMember _ _ s => simp [entries, Node.field?, Signature.field?_entry]
  | _ => rfl

theorem Node.filterMap_ordinary?_entries (node : Node) :
    node.entries.filterMap Entry.ordinary? = node.methods.filter (·.isOrdinary) := by
  cases node with
  | propertyMember name optional type =>
    simp only [entries]
    split <;> rfl
  | callMember s | functionMember _ _ s => exact s.filterMap_ordinary?_entry _
  | _ => rfl

end Ambient

/-! ## What a container holds -/

namespace Container

variable {c d old new : Container} {j k : Key} {entry : Entry} {entries : List Entry}
variable {parents : List HostType}

def typedFields (c : Container) : List (String × HostType) := c.members.filterMap Symbol.field?

def ordinaryMethods (c : Container) : List Method := c.methods.filter (·.isOrdinary)

theorem mem_typedFields {name : String} {type : HostType} :
    (name, type) ∈ c.typedFields ↔ .field name type ∈ c.members := by
  rw [typedFields, List.mem_filterMap]
  refine ⟨?_, fun member => ⟨_, member, rfl⟩⟩
  rintro ⟨s, member, same⟩
  cases s with
  | field x t =>
    obtain ⟨rfl, rfl⟩ := Prod.mk.inj (Option.some.inj same)
    exact member
  | comment text | method m | container e => contradiction

theorem mem_ordinaryMethods {m : Method} :
    m ∈ c.ordinaryMethods ↔ .method m ∈ c.members ∧ m.isOrdinary = true := by
  rw [ordinaryMethods, List.mem_filter, mem_methods]

theorem Indexed.hasField_iff_mem_map (indexed : c.Indexed) {name : String} :
    c.hasField name = true ↔ name ∈ c.typedFields.map Prod.fst := by
  simp only [indexed.hasField_iff, List.mem_map, Prod.exists, mem_typedFields, exists_and_right,
    exists_eq_right]

/-- The overload of an ordinary method can be taken by another ordinary one only. -/
theorem Indexed.hasOverload_iff_mem_map (indexed : c.Indexed) {m : Method}
    (ordinary : m.isOrdinary = true) :
    c.hasOverload m.overload = true ↔ m.overload ∈ c.ordinaryMethods.map Method.overload := by
  rw [hasOverload, List.contains_iff_mem, indexed.mem_overloads, List.mem_map]
  simp only [mem_ordinaryMethods]
  constructor
  · rintro ⟨n, member, same⟩
    have name : n.name = m.name := congrArg Method.Overload.name same
    refine ⟨n, ⟨member, ?_⟩, same⟩
    rwa [Method.isOrdinary, name]
  · rintro ⟨n, ⟨member, _⟩, same⟩
    exact ⟨n, member, same⟩

theorem Indexed.typedFields_enter (indexed : c.Indexed) (entry : Entry) :
    (c.enter entry).container.typedFields = keepFirst Prod.fst c.typedFields entry.field? := by
  cases entry with
  | field name type =>
    simp only [enter_field, Entry.field?, keepFirst, ← indexed.hasField_iff_mem_map]
    split
    · rfl
    · simp [typedFields, Container.addField, append, Symbol.field?]
  | method m =>
    rw [enter_method]
    split
    · rfl
    · simp [typedFields, Container.addMethod, append, Symbol.field?, Entry.field?, keepFirst]
  | specialized name => rfl
  | placeholder node =>
    simp [enter, typedFields, Container.addComment, append, Symbol.field?, Entry.field?, keepFirst]

theorem Indexed.ordinaryMethods_enter (indexed : c.Indexed) (entry : Entry) :
    (c.enter entry).container.ordinaryMethods =
      keepFirst Method.overload c.ordinaryMethods entry.ordinary? := by
  cases entry with
  | method m =>
    have added : (c.addMethod m).ordinaryMethods =
        c.ordinaryMethods ++ [m].filter (·.isOrdinary) := by
      simp [ordinaryMethods, Container.addMethod, append, methods, Symbol.method?]
    rw [enter_method, Entry.ordinary?]
    cases ordinary : m.isOrdinary with
    | false =>
      -- A constructor is taken or collapsed, and is left out of both sides.
      rw [if_neg Bool.false_ne_true, keepFirst]
      split
      · rfl
      · simp [added, ordinary]
    | true =>
      simp only [↓reduceIte, keepFirst, ← indexed.hasOverload_iff_mem_map ordinary]
      split
      · rfl
      · simp [added, ordinary]
  | field name type =>
    rw [enter_field]
    split
    · rfl
    · simp [ordinaryMethods, Container.addField, append, methods, Symbol.method?, Entry.ordinary?,
        keepFirst]
  | specialized name => rfl
  | placeholder node =>
    simp [enter, ordinaryMethods, Container.addComment, append, methods, Symbol.method?,
      Entry.ordinary?, keepFirst]

/-- Of the entries that came to a container it has the first field of each name and, apart from
constructors, the first method of each overload; of the types it was to inherit from it has the
first of each. -/
structure Holds (c : Container) (entries : List Entry) (parents : List HostType) : Prop where
  fields : c.typedFields = firstOfEach Prod.fst (entries.filterMap Entry.field?)
  methods : c.ordinaryMethods = firstOfEach Method.overload (entries.filterMap Entry.ordinary?)
  parents : c.head.parents = firstOfEach id parents

theorem holds_fresh (k : Key) : (fresh k).Holds [] [] := by
  obtain ⟨kind, name⟩ := k
  cases kind <;> exact ⟨rfl, rfl, rfl⟩

theorem Holds.of_members_eq (held : c.Holds entries parents) (members : d.members = c.members)
    (kept : d.head.parents = c.head.parents) : d.Holds entries parents where
  fields := by
    rw [typedFields, members]
    exact held.fields
  methods := by
    rw [ordinaryMethods, Container.methods, members]
    exact held.methods
  parents := kept.trans held.parents

/-- A silent entry cannot be told from what a container holds. -/
theorem holds_silent (silent : entry.Silent) :
    c.Holds (entries ++ [entry]) parents ↔ c.Holds entries parents := by
  have fields : (entries ++ [entry]).filterMap Entry.field? = entries.filterMap Entry.field? := by
    simp [silent.field?]
  have methods : (entries ++ [entry]).filterMap Entry.ordinary? =
      entries.filterMap Entry.ordinary? := by
    simp [silent.ordinary?]
  constructor
  · rintro ⟨first, second, third⟩
    exact ⟨fields ▸ first, methods ▸ second, third⟩
  · rintro ⟨first, second, third⟩
    exact ⟨fields.symm ▸ first, methods.symm ▸ second, third⟩

theorem Holds.enter (held : c.Holds entries parents) (indexed : c.Indexed) (entry : Entry) :
    (c.enter entry).container.Holds (entries ++ [entry]) parents where
  fields := by rw [indexed.typedFields_enter, held.fields, firstOfEach_filterMap_concat]
  methods := by rw [indexed.ordinaryMethods_enter, held.methods, firstOfEach_filterMap_concat]
  parents := by
    rw [head_enter]
    exact held.parents

theorem Holds.enterAll (held : c.Holds entries parents) (sound : c.Sound) (later : List Entry) :
    (c.enterAll later).container.Holds (entries ++ later) parents := by
  induction later generalizing c entries with
  | nil => rwa [List.append_nil]
  | cons entry later ih =>
    have first := held.enter sound.coherent.toIndexed entry
    have rest := ih first ((evolves_enter c entry).sound sound)
    rwa [List.append_assoc] at rest

end Container

theorem ClassHead.parents_addParents {info : ClassHead} {earlier : List HostType}
    (first : info.parents = firstOfEach id earlier) (types : List HostType) :
    (info.addParents types).parents = firstOfEach id (earlier ++ types) := by
  induction types generalizing info earlier with
  | nil => rwa [List.append_nil]
  | cons type types ih =>
    have listed : info.parents.contains type = true ↔ type ∈ earlier.map id := by
      rw [List.contains_iff_mem, first, ← mem_map_firstOfEach id, List.map_id]
    have next := firstOfEach_concat id earlier type
    rw [List.append_cons, addParents]
    split
    · next there =>
      apply ih
      rw [next, id, if_pos (listed.mp there), first]
    · next absent =>
      apply ih
      rw [next, id, if_neg (absent ∘ listed.mpr), first]

namespace Container

variable {c d old new : Container} {j k : Key} {entry : Entry} {entries : List Entry}
variable {parents : List HostType}

theorem Holds.untrait (held : c.Holds entries parents) :
    (c.setTrait false).Holds entries parents := by
  refine held.of_members_eq ?_ ?_
  · rw [setTrait, modifyClass_eq]
  · rw [setTrait, modifyClass_eq]
    cases c.head <;> rfl

theorem Holds.extend (held : c.Holds entries parents) {info : ClassHead}
    (head : c.head = .classOrTrait info) (typeParams : List TypeParam) (types : List HostType) :
    ((c.addParents types).addTypeParams typeParams).Holds entries (parents ++ types) := by
  have before : info.parents = firstOfEach id parents := by
    rw [← held.parents, head]
    rfl
  rw [extended_eq, modifyClass_eq]
  exact
    { fields := held.fields
      methods := held.methods
      parents := by
        rw [head]
        exact ClassHead.parents_addParents before types }

end Container
end Facade
