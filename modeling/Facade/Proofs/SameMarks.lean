import Facade.Proofs.Contribution

/-! Trees with the same marks. The members of a container are told apart by their marks, so that
two trees which show the same marks everywhere have the same containers at the same places, and
in each of these the same members up to order and content. -/
namespace Facade
open Ambient (Node)

/-- Members that cannot stand beside another of the same mark. -/
def Symbol.mark? : Symbol → Option Mark
  | .comment _ => none
  | .field name _ => some (.field name)
  | .method m => some (.overload m.overload)
  | .container c => some (.child c.key)

def Mark.isMember : Mark → Bool
  | .child _ | .field _ | .overload _ => true
  | .parent _ | .concrete | .comment _ => false

namespace Container

variable {c d e : Container} {k : Key} {path : Path} {mark : Mark}

def memberMarks (c : Container) : List Mark := c.members.filterMap (·.mark?)

/-- What a container is looked up for is what its members show. -/
theorem Indexed.mem_memberMarks_iff (indexed : c.Indexed) :
    mark ∈ c.memberMarks ↔ mark.isMember = true ∧ c.Bears mark := by
  rw [memberMarks, List.mem_filterMap]
  constructor
  · rintro ⟨s, member, same⟩
    cases s with
    | comment text => contradiction
    | field name type =>
      obtain rfl := Option.some.inj same
      exact ⟨rfl, indexed.hasField_iff.mpr ⟨type, member⟩⟩
    | method m =>
      obtain rfl := Option.some.inj same
      exact ⟨rfl, List.contains_iff_mem.mpr (indexed.mem_overloads.mpr ⟨m, member, rfl⟩)⟩
    | container d =>
      obtain rfl := Option.some.inj same
      have found := indexed.find?_eq_some.mpr ⟨member, rfl⟩
      exact ⟨rfl, indexed.isSome_place?.trans (Option.isSome_iff_exists.mpr ⟨d, found⟩)⟩
  · rintro ⟨member, bears⟩
    cases mark with
    | parent _ | concrete | comment _ => contradiction
    | field name =>
      obtain ⟨type, there⟩ := indexed.hasField_iff.mp bears
      exact ⟨_, there, rfl⟩
    | overload o =>
      obtain ⟨m, there, rfl⟩ := indexed.mem_overloads.mp (List.contains_iff_mem.mp bears)
      exact ⟨_, there, rfl⟩
    | child k =>
      obtain ⟨d, found⟩ := Option.isSome_iff_exists.mp (indexed.isSome_place?.symm.trans bears)
      obtain ⟨there, rfl⟩ := indexed.find?_eq_some.mp found
      exact ⟨_, there, rfl⟩

/-- No two members have the same mark. -/
theorem Consistent.nodup_memberMarks (consistent : c.Consistent) : c.memberMarks.Nodup := by
  unfold memberMarks List.Nodup
  rw [List.pairwise_filterMap, List.pairwise_iff_getElem]
  intro i j boundI boundJ less mark first mark' second same
  subst mark'
  have here := List.getElem?_eq_getElem boundI
  have there := List.getElem?_eq_getElem boundJ
  refine absurd ?_ (Nat.ne_of_lt less)
  cases s : c.members[i] <;> cases t : c.members[j] <;> rw [s] at first here <;>
    rw [t] at second there <;> cases first <;> simp only [Symbol.mark?, Option.some.injEq,
      Mark.field.injEq, Mark.overload.injEq, Mark.child.injEq, reduceCtorEq] at second
  · exact consistent.fields i j _ _ _ here (second ▸ there)
  · exact consistent.methods i j _ _ here there second.symm
  · exact consistent.containers i j _ _ here there (congrArg Key.kind second.symm)
      (congrArg Key.name second.symm)

/-! ## Places with the same marks -/

theorem Sound.bearsAt_child (sound : c.Sound) :
    c.BearsAt path (.child k) ↔ ∃ d, c.get? (path ++ [k]) = some d := by
  simp only [get?_concat, Option.bind_eq_some_iff]
  constructor
  · rintro ⟨e, found, bears⟩
    rw [Bears, (sound.of_get? found).coherent.isSome_place?] at bears
    obtain ⟨d, inner⟩ := Option.isSome_iff_exists.mp bears
    exact ⟨d, e, found, inner⟩
  · rintro ⟨d, e, found, inner⟩
    refine ⟨e, found, ?_⟩
    rw [Bears, (sound.of_get? found).coherent.isSome_place?, inner]
    rfl

/-- Two sound trees of one key with the same marks throughout. -/
structure SameMarks (c d : Container) : Prop where
  left : c.Sound
  right : d.Sound
  key : c.key = d.key
  bears : ∀ path mark, c.BearsAt path mark ↔ d.BearsAt path mark

theorem SameMarks.symm (same : c.SameMarks d) : d.SameMarks c :=
  ⟨same.right, same.left, same.key.symm, fun path mark => (same.bears path mark).symm⟩

theorem SameMarks.find? (same : c.SameMarks d) (found : c.find? k = some e) :
    ∃ e', d.find? k = some e' ∧ e.SameMarks e' := by
  have child : c.BearsAt [] (.child k) :=
    same.left.bearsAt_child.mpr ⟨e, (get?_key c k).trans found⟩
  obtain ⟨e', there⟩ := same.right.bearsAt_child.mp ((same.bears _ _).mp child)
  have found' : d.find? k = some e' := (get?_key d k).symm.trans there
  refine ⟨e', found', same.left.find? found, same.right.find? found', ?_, fun path mark => ?_⟩
  · rw [same.left.coherent.key_of_find? found, same.right.coherent.key_of_find? found']
  · have below := same.bears (k :: path) mark
    simpa only [bearsAt_cons, found, found', Option.some.injEq, exists_eq_left'] using below

theorem SameMarks.get? (same : c.SameMarks d) (found : c.get? path = some e) :
    ∃ e', d.get? path = some e' ∧ e.SameMarks e' := by
  induction path generalizing c d with
  | nil =>
    obtain rfl := Option.some.inj found
    exact ⟨d, rfl, same⟩
  | cons k path ih =>
    obtain ⟨inner, here, below⟩ := Option.bind_eq_some_iff.mp found
    obtain ⟨inner', there, same'⟩ := same.find? here
    obtain ⟨e', deeper, final⟩ := ih same' below
    exact ⟨e', by rw [Container.get?, there, Option.bind_some, deeper], final⟩

/-- What relates any two containers found at one place relates the two trees place by place. -/
theorem SameMarks.rel_get? (same : c.SameMarks d) {related : Container → Container → Prop}
    (each : ∀ path e e', c.get? path = some e → d.get? path = some e' → e.SameMarks e' →
      related e e') (path : Path) : Option.Rel related (c.get? path) (d.get? path) := by
  cases found : c.get? path with
  | some e =>
    obtain ⟨e', found', same'⟩ := same.get? found
    rw [found']
    exact .some (each path e e' found found' same')
  | none =>
    cases found' : d.get? path with
    | none => exact .none
    | some e' =>
      obtain ⟨e, there, _⟩ := same.symm.get? found'
      rw [found] at there
      contradiction

theorem SameMarks.bears_iff (same : c.SameMarks d) (mark : Mark) : c.Bears mark ↔ d.Bears mark := by
  rw [← bearsAt_nil, ← bearsAt_nil, same.bears]

theorem SameMarks.mem_memberMarks_iff (same : c.SameMarks d) :
    mark ∈ c.memberMarks ↔ mark ∈ d.memberMarks := by
  rw [same.left.coherent.mem_memberMarks_iff, same.right.coherent.mem_memberMarks_iff,
    same.bears_iff]

/-- Being a trait is a matter of marks, too. -/
theorem SameMarks.isTrait (same : c.SameMarks d) :
    c.classHead?.map (·.isTrait) = d.classHead?.map (·.isTrait) := by
  have key : c.head.key = d.head.key := same.key
  have concrete : c.head.isConcrete = true ↔ d.head.isConcrete = true := same.bears_iff .concrete
  unfold classHead?
  cases first : c.head <;> cases second : d.head <;>
    simp only [first, second, Head.key, Key.mk.injEq, reduceCtorEq, false_and] at key
  · rfl
  · rfl
  · rw [first, second, ← Bool.eq_iff_iff] at concrete
    exact congrArg some (Bool.not_inj concrete)

end Container

/-- Declarations with the same marks leave trees with the same marks. -/
theorem sameMarks_importTree {first second : List Node}
    (plain : allUnparametrized first = true) (plain' : allUnparametrized second = true)
    (marks : ∀ mark, mark ∈ marksOf first ↔ mark ∈ marksOf second) :
    (importTree first).container.SameMarks (importTree second).container where
  left := sound_importTree first
  right := sound_importTree second
  key := (Container.evolves_declareAll .root first).key.trans
    (Container.evolves_declareAll .root second).key.symm
  bears path mark := by
    rw [bearsAt_importTree plain, bearsAt_importTree plain', marks]

end Facade
