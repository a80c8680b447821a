import Facade.Proofs.Nesting

/-! An import reads no comment. Two trees that differ only in the texts of their comments stay so
under the same changes, and call for the same notes. -/
namespace Facade
open Ambient (Node Signature)

mutual

/-- A symbol without the texts of the comments in it. -/
def Symbol.mute : Symbol → Symbol
  | .comment _ => .comment ""
  | .field name type => .field name type
  | .method m => .method m
  | .container c => .container c.mute

def Container.mute : Container → Container
  | ⟨head, members, index, companion⟩ => ⟨head, muteAll members, index, companion⟩

def muteAll : List Symbol → List Symbol
  | [] => []
  | s :: rest => s.mute :: muteAll rest

end

theorem muteAll_eq_map (members : List Symbol) : muteAll members = members.map Symbol.mute := by
  induction members with
  | nil => rfl
  | cons s rest ih => rw [muteAll, ih, List.map_cons]

theorem Symbol.container?_mute (s : Symbol) :
    s.mute.container? = s.container?.map Container.mute := by
  cases s <;> rfl

namespace Container

variable {c d e e' new new' : Container} {k : Key}

theorem mute_eq (c : Container) : c.mute = { c with members := c.members.map Symbol.mute } := by
  obtain ⟨head, members, index, companion⟩ := c
  rw [mute, muteAll_eq_map]

theorem find?_mute (c : Container) (k : Key) : c.mute.find? k = (c.find? k).map mute := by
  simp only [mute_eq, find?, place?, List.getElem?_map, Option.map_bind, Option.bind_map,
    Function.comp_def, Symbol.container?_mute]

theorem mute_append (c : Container) (s : Symbol) : (c.append s).mute = c.mute.append s.mute := by
  simp only [mute_eq, append, List.map_append, List.map_cons, List.map_nil]

theorem mute_replace (c : Container) (k : Key) (new : Container) :
    (c.replace k new).mute = c.mute.replace k new.mute := by
  unfold replace
  simp only [mute_eq, place?]
  cases c.index.containers.lookup k with
  | none => rfl
  | some i => simp only [List.map_set, Symbol.mute, mute_eq]

theorem mute_modify {f : Container → Container} (kept : ∀ e : Container, (f e).mute = f e.mute)
    (c : Container) (k : Key) : (c.modify k f).mute = c.mute.modify k f := by
  unfold modify
  rw [find?_mute]
  cases c.find? k with
  | none => rfl
  | some e => simp only [Option.map_some, mute_replace, kept]

theorem mute_linkTo (k : Key) (c : Container) : (linkTo k c).mute = linkTo k c.mute := by
  simp only [linkTo, mute_eq]

theorem mute_create (c : Container) (k : Key) : (c.create k).mute = c.mute.create k := by
  simp only [create, append, mute_eq, List.map_append, List.map_cons, List.map_nil, Symbol.mute,
    fresh, List.length_map]

theorem mute_ensure (c : Container) (k : Key) : (c.ensure k).mute = c.mute.ensure k := by
  have placed (j : Key) : c.mute.place? j = c.place? j := by simp only [mute_eq, place?]
  unfold ensure partner?
  simp only [placed]
  split
  · rfl
  · split
    · simp only [link, mute_modify (mute_linkTo _), mute_create]
    · exact mute_create c k

theorem mute_addField (c : Container) (name : String) (type : HostType) :
    (c.addField name type).mute = c.mute.addField name type := by
  simp only [addField, append, mute_eq, List.map_append, List.map_cons, List.map_nil, Symbol.mute,
    List.length_map]

theorem mute_addMethod (c : Container) (m : Method) :
    (c.addMethod m).mute = c.mute.addMethod m := by
  simp only [addMethod, append, mute_eq, List.map_append, List.map_cons, List.map_nil, Symbol.mute]

theorem mute_modifyClass (f : ClassHead → ClassHead) (c : Container) :
    (modifyClass f c).mute = modifyClass f c.mute := by
  simp only [modifyClass, mute_eq]
  split <;> rfl

/-- The same but for the texts of comments. -/
def Matches (c d : Container) : Prop := c.mute = d.mute

theorem Matches.refl (c : Container) : c.Matches c := rfl

theorem Matches.head (same : c.Matches d) : c.head = d.head := by
  have heads := congrArg Container.head same
  simpa only [mute_eq] using heads

theorem Matches.isPackage (same : c.Matches d) : c.isPackage = d.isPackage := by
  simp only [Container.isPackage, kind, key, same.head]

theorem Matches.index (same : c.Matches d) : c.index = d.index := by
  have indexes := congrArg Container.index same
  simpa only [mute_eq] using indexes

theorem Matches.find? (same : c.Matches d) (k : Key) :
    (c.find? k = none ∧ d.find? k = none) ∨
      ∃ e e', c.find? k = some e ∧ d.find? k = some e' ∧ e.Matches e' := by
  have founds : (c.find? k).map mute = (d.find? k).map mute := by
    rw [← find?_mute, ← find?_mute, same]
  cases left : c.find? k with
  | none =>
    rw [left] at founds
    exact .inl ⟨rfl, Option.map_eq_none_iff.mp founds.symm⟩
  | some e =>
    rw [left] at founds
    obtain ⟨e', right, inner⟩ := Option.map_eq_some_iff.mp founds.symm
    exact .inr ⟨e, e', rfl, right, inner.symm⟩

theorem Matches.of_find? (same : c.Matches d) (found : c.find? k = some e)
    (found' : d.find? k = some e') : e.Matches e' := by
  rcases same.find? k with ⟨absent, _⟩ | ⟨f, f', here, here', inner⟩
  · rw [found] at absent
    contradiction
  · obtain rfl := Option.some.inj (here.symm.trans found)
    obtain rfl := Option.some.inj (here'.symm.trans found')
    exact inner

theorem Matches.append {s t : Symbol} (same : c.Matches d) (added : s.mute = t.mute) :
    (c.append s).Matches (d.append t) := by
  unfold Matches
  rw [mute_append, mute_append, same, added]

theorem Matches.replace (same : c.Matches d) (inner : new.Matches new') (k : Key) :
    (c.replace k new).Matches (d.replace k new') := by
  unfold Matches
  rw [mute_replace, mute_replace, same, inner]

theorem Matches.modify {f : Container → Container} (same : c.Matches d)
    (kept : ∀ e : Container, (f e).mute = f e.mute) (k : Key) :
    (c.modify k f).Matches (d.modify k f) := by
  unfold Matches
  rw [mute_modify kept, mute_modify kept, same]

theorem Matches.ensure (same : c.Matches d) (k : Key) : (c.ensure k).Matches (d.ensure k) := by
  unfold Matches
  rw [mute_ensure, mute_ensure, same]

theorem Matches.openClass (same : c.Matches d) (name : String) :
    (c.openClass name).Matches (d.openClass name) :=
  (same.ensure _).modify (mute_modifyClass _) _

theorem Matches.extendClass (same : c.Matches d) (name : String) (typeParams : List TypeParam)
    (parents : List HostType) :
    (c.extendClass name typeParams parents).Matches (d.extendClass name typeParams parents) :=
  (same.ensure _).modify (fun _ => by
    simp only [addTypeParams, addParents, mute_modifyClass]) _

end Container

/-- Edits that leave the same but for the texts of comments, and the same notes. -/
def Edit.Matches (a b : Edit) : Prop := a.container.Matches b.container ∧ a.notes = b.notes

namespace Container

variable {c d : Container}

theorem Matches.title (same : c.Matches d) : c.title = d.title := congrArg Head.title same.head

theorem Matches.enter (same : c.Matches d) (entry : Entry) :
    (c.enter entry).Matches (d.enter entry) := by
  cases entry with
  | field name type =>
    have taken : c.hasField name = d.hasField name := by rw [hasField, hasField, same.index]
    rw [enter_field, enter_field, taken, same.title]
    split
    · exact ⟨same, rfl⟩
    · have grown : (c.addField name type).Matches (d.addField name type) := by
        unfold Matches
        rw [mute_addField, mute_addField, same]
      exact ⟨grown, rfl⟩
  | method m =>
    have taken : c.hasOverload m.overload = d.hasOverload m.overload := by
      rw [hasOverload, hasOverload, same.index]
    rw [enter_method, enter_method, taken, same.title]
    split
    · exact ⟨same, rfl⟩
    · have grown : (c.addMethod m).Matches (d.addMethod m) := by
        unfold Matches
        rw [mute_addMethod, mute_addMethod, same]
      exact ⟨grown, rfl⟩
  | specialized name => exact ⟨same, congrArg ([Note.specialized name ·]) same.title⟩
  | placeholder node =>
    exact ⟨same.append rfl, congrArg ([Note.placeholder · node.kind]) same.title⟩

/-- A placeholder shows its node in the comment only. -/
theorem Matches.enter_placeholder {node node' : Node} (same : c.Matches d)
    (kind : node.kind = node'.kind) :
    (c.enter (.placeholder node)).Matches (d.enter (.placeholder node')) := by
  refine ⟨same.append rfl, ?_⟩
  simp only [Container.enter, same.title, kind]

theorem Matches.enterAll (same : c.Matches d) (entries : List Entry) :
    (c.enterAll entries).Matches (d.enterAll entries) := by
  induction entries generalizing c d with
  | nil => exact ⟨same, rfl⟩
  | cons entry entries ih =>
    have first := same.enter entry
    have rest := ih first.1
    have notes := congr (congrArg (· ++ ·) first.2) rest.2
    exact ⟨rest.1, notes⟩

end Container

/-! ## Bodies -/

/-- Walks that have come to the same but for the texts of comments. -/
structure Walk.Matches (w v : Walk) : Prop where
  tree : w.tree.Matches v.tree
  notes : w.notes = v.notes
  companion : w.companion = v.companion

namespace Walk.Matches

variable {w v : Walk} {k : Key} {s s' : Signature}

theorem enterAt {entries entries' : List Entry} (same : w.Matches v) (k : Key)
    (entered : ∀ c d : Container, c.Matches d →
      (c.enterAll entries).Matches (d.enterAll entries')) :
    (w.enterAt [k] entries).Matches (v.enterAt [k] entries') := by
  obtain ⟨absent, absent'⟩ | ⟨owner, owner', found, found', inner⟩ := same.tree.find? k
  · rw [enterAt_absent absent, enterAt_absent absent']
    exact same
  · rw [enterAt_key found, enterAt_key found']
    obtain ⟨grown, added⟩ := entered owner owner' inner
    have notes := congr (congrArg (· ++ ·) same.notes) added
    exact ⟨same.tree.replace grown k, notes, same.companion⟩

theorem promote (same : w.Matches v) (name : String)
    (entry : s.constructorEntry = s'.constructorEntry) :
    (w.promote [] name s).Matches (v.promote [] name s') := by
  have opened : Walk.Matches { w with tree := w.tree.openClass name }
      { v with tree := v.tree.openClass name } :=
    ⟨same.tree.openClass name, same.notes, same.companion⟩
  rw [promote_nil, promote_nil, entry]
  exact opened.enterAt _ fun _ _ inner => inner.enterAll _

theorem companionReference {c d : Container} (same : c.Matches d) (name : String) :
    c.companionReference name = d.companionReference name := by
  obtain ⟨absent, absent'⟩ | ⟨owner, owner', found, found', inner⟩ :=
    same.find? ⟨.classOrTrait, name⟩
  · simp only [Container.companionReference, absent, absent']
  · simp only [Container.companionReference, found, found', Option.bind_some, Container.classHead?,
      inner.head]

/-- Of a constructor, a walk reads the result and what it would bring to a class. -/
theorem constructor (same : w.Matches v) (k : Key)
    (entry : s.constructorEntry = s'.constructorEntry) (result : s.result = s'.result) :
    (w.constructor ⟨[], [k]⟩ s).Matches (v.constructor ⟨[], [k]⟩ s') := by
  have left {w v : Walk} (same : w.Matches v) :
      (w.enterAt [k] [.placeholder (.constructorMember s)]).Matches
        (v.enterAt [k] [.placeholder (.constructorMember s')]) :=
    same.enterAt k fun _ _ inner => inner.enter_placeholder rfl
  unfold Walk.constructor
  simp only [Container.get?_key]
  obtain ⟨absent, absent'⟩ | ⟨owner, owner', found, found', inner⟩ := same.tree.find? k
  · simp only [absent, absent', Option.map_none]
    exact left same
  · simp only [found, found', Option.map_some, ← inner.head]
    cases head : owner.head with
    | package name | classOrTrait info => exact left same
    | object name =>
      have reference := companionReference same.tree name
      simp only [Container.get?, ← same.companion, ← reference, ← result]
      have kept : Walk.Matches
          { w with companion := some (w.companion.getD (w.tree.companionReference name)) }
          { v with companion := some (w.companion.getD (w.tree.companionReference name)) } :=
        ⟨same.tree, same.notes, rfl⟩
      split
      · exact kept.promote name entry
      · exact left kept

end Walk.Matches

end Facade
