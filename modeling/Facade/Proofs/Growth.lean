import Facade.Proofs.Development

/-! A tree only grows. Later declarations add to the ends of what earlier ones left: members,
type parameters, parents and notes stay in their places, a trait may become a class but never
the other way round, and companions stay linked. -/
namespace Facade
open Ambient (Node)

/-- A class keeps what is on its head, but it may stop being a trait. -/
structure ClassHead.Grows (old new : ClassHead) : Prop where
  name : new.name = old.name
  typeParams : old.typeParams <+: new.typeParams
  parents : old.parents <+: new.parents
  isTrait : new.isTrait = old.isTrait ∨ old.isTrait = true ∧ new.isTrait = false

inductive Head.Grows : Head → Head → Prop where
  | same (head : Head) : Grows head head
  | classOrTrait {old new : ClassHead} :
      old.Grows new → Grows (.classOrTrait old) (.classOrTrait new)

mutual

/-- The container of a kind and a name at an earlier and at a later time. -/
inductive Container.Grows : Container → Container → Prop where
  | intro {old new : Container} :
      old.head.Grows new.head →
      (∀ k, old.companion = some k → new.companion = some k) →
      MembersGrow old.members new.members →
      Container.Grows old new

/-- The old members keep their places: the containers among them may have grown, all others
are the same, and new members follow. -/
inductive MembersGrow : List Symbol → List Symbol → Prop where
  | added (news : List Symbol) : MembersGrow [] news
  | same (s : Symbol) {olds news : List Symbol} :
      MembersGrow olds news → MembersGrow (s :: olds) (s :: news)
  | container {old new : Container} {olds news : List Symbol} :
      Container.Grows old new → MembersGrow olds news →
      MembersGrow (.container old :: olds) (.container new :: news)

end

theorem ClassHead.Grows.refl (info : ClassHead) : info.Grows info :=
  ⟨rfl, List.prefix_refl _, List.prefix_refl _, .inl rfl⟩

theorem ClassHead.Grows.trans {a b c : ClassHead} (first : a.Grows b) (second : b.Grows c) :
    a.Grows c := by
  refine ⟨second.name.trans first.name, first.typeParams.trans second.typeParams,
    first.parents.trans second.parents, ?_⟩
  rcases second.isTrait with same | ⟨was, now⟩
  · rw [same]
    exact first.isTrait
  · rcases first.isTrait with same' | ⟨_, now'⟩
    · exact .inr ⟨same'.symm.trans was, now⟩
    · rw [now'] at was
      contradiction

theorem ClassHead.grows_addParents (info : ClassHead) (types : List HostType) :
    info.Grows (info.addParents types) := by
  induction types generalizing info with
  | nil => exact .refl info
  | cons type types ih =>
    unfold ClassHead.addParents
    split
    · exact ih info
    · have first : info.Grows { info with parents := info.parents ++ [type] } :=
        ⟨rfl, List.prefix_refl _, List.prefix_append _ _, .inl rfl⟩
      exact first.trans (ih _)

theorem ClassHead.grows_untrait (info : ClassHead) : info.Grows { info with isTrait := false } := by
  refine ⟨rfl, List.prefix_refl _, List.prefix_refl _, ?_⟩
  cases trait : info.isTrait with
  | false => exact .inl rfl
  | true => exact .inr ⟨rfl, rfl⟩

theorem Head.Grows.trans {a b c : Head} (first : a.Grows b) (second : b.Grows c) :
    a.Grows c := by
  cases first with
  | same => exact second
  | classOrTrait first =>
    cases second with
    | same => exact .classOrTrait first
    | classOrTrait second => exact .classOrTrait (first.trans second)

theorem Head.Grows.key {old new : Head} (grows : old.Grows new) : new.key = old.key := by
  cases grows with
  | same => rfl
  | classOrTrait grows => simp only [Head.key, grows.name]

theorem Head.Grows.exists_class {info : ClassHead} {head : Head}
    (grows : (Head.classOrTrait info).Grows head) :
    ∃ new, head = .classOrTrait new ∧ info.Grows new := by
  cases grows with
  | same => exact ⟨info, rfl, .refl info⟩
  | classOrTrait grows => exact ⟨_, rfl, grows⟩

theorem Head.Grows.object {name : String} {head : Head} (grows : (Head.object name).Grows head) :
    head = .object name := by
  cases grows
  rfl

theorem MembersGrow.refl (members : List Symbol) : MembersGrow members members := by
  induction members with
  | nil => exact .added []
  | cons s members ih => exact .same s ih

theorem MembersGrow.append (members news : List Symbol) :
    MembersGrow members (members ++ news) := by
  induction members with
  | nil => exact .added news
  | cons s members ih => exact .same s ih

theorem MembersGrow.set {members : List Symbol} {i : Nat} {old new : Container}
    (here : members[i]? = some (.container old)) (grows : old.Grows new) :
    MembersGrow members (members.set i (.container new)) := by
  induction members generalizing i with
  | nil => exact .added []
  | cons s members ih =>
    cases i with
    | zero =>
      obtain rfl := Option.some.inj here
      exact .container grows (.refl members)
    | succ i => exact .same s (ih here)

mutual

theorem Container.Grows.trans {a b c : Container} : a.Grows b → b.Grows c → a.Grows c
  | .intro head companion members, .intro head' companion' members' =>
      .intro (head.trans head') (fun k linked => companion' k (companion k linked))
        (members.trans members')

theorem MembersGrow.trans {a b c : List Symbol} :
    MembersGrow a b → MembersGrow b c → MembersGrow a c
  | .added _, _ => .added c
  | .same s rest, .same _ rest' => .same s (rest.trans rest')
  | .same _ rest, .container grows rest' => .container grows (rest.trans rest')
  | .container grows rest, .same _ rest' => .container grows (rest.trans rest')
  | .container grows rest, .container grows' rest' =>
      .container (grows.trans grows') (rest.trans rest')

end

theorem MembersGrow.exists_container {olds news : List Symbol} {old : Container}
    (grows : MembersGrow olds news) (member : .container old ∈ olds) :
    ∃ new, .container new ∈ news ∧ old.Grows new := by
  induction olds generalizing news with
  | nil => contradiction
  | cons s olds ih =>
    cases grows with
    | same _ rest =>
      rcases List.mem_cons.mp member with rfl | later
      · exact ⟨old, .head _, .intro (.same _) (fun _ => id) (.refl _)⟩
      · obtain ⟨new, there, grown⟩ := ih rest later
        exact ⟨new, .tail _ there, grown⟩
    | container grows rest =>
      rcases List.mem_cons.mp member with here | later
      · obtain rfl := Symbol.container.inj here
        exact ⟨_, .head _, grows⟩
      · obtain ⟨new, there, grown⟩ := ih rest later
        exact ⟨new, .tail _ there, grown⟩

theorem MembersGrow.mem {olds news : List Symbol} {s : Symbol} (grows : MembersGrow olds news)
    (leaf : s.isContainer = false) (member : s ∈ olds) : s ∈ news := by
  induction olds generalizing news with
  | nil => contradiction
  | cons t olds ih =>
    cases grows with
    | same _ rest =>
      rcases List.mem_cons.mp member with rfl | later
      · exact .head _
      · exact .tail _ (ih rest later)
    | container _ rest =>
      rcases List.mem_cons.mp member with rfl | later
      · contradiction
      · exact .tail _ (ih rest later)

namespace Container

variable {c d e new old : Container} {j k : Key}

theorem Grows.refl (c : Container) : c.Grows c :=
  .intro (.same _) (fun _ => id) (.refl _)

theorem Grows.head : c.Grows d → c.head.Grows d.head
  | .intro head _ _ => head

theorem Grows.members : c.Grows d → MembersGrow c.members d.members
  | .intro _ _ members => members

theorem Grows.key (grows : c.Grows d) : d.key = c.key := grows.head.key

/-- A container is found where it was found before. -/
theorem Grows.find? (grows : c.Grows d) (left : c.Indexed) (right : d.Indexed)
    (found : c.find? k = some old) : ∃ new, d.find? k = some new ∧ old.Grows new := by
  obtain ⟨member, key⟩ := left.find?_eq_some.mp found
  obtain ⟨new, there, grown⟩ := grows.members.exists_container member
  exact ⟨new, right.find?_eq_some.mpr ⟨there, grown.key.trans key⟩, grown⟩

theorem Grows.get? {path : Path} (grows : c.Grows d) (left : c.Sound) (right : d.Sound)
    (found : c.get? path = some old) : ∃ new, d.get? path = some new ∧ old.Grows new := by
  induction path generalizing c d with
  | nil =>
    obtain rfl := Option.some.inj found
    exact ⟨d, rfl, grows⟩
  | cons k path ih =>
    obtain ⟨inner, here, below⟩ := Option.bind_eq_some_iff.mp found
    obtain ⟨inner', there, grown⟩ :=
      grows.find? left.coherent.toIndexed right.coherent.toIndexed here
    obtain ⟨new, deeper, final⟩ := ih grown (left.find? here) (right.find? there) below
    exact ⟨new, by rw [Container.get?, there, Option.bind_some, deeper], final⟩

theorem grows_concat {s : Symbol} (head : d.head = c.head) (companion : d.companion = c.companion)
    (members : d.members = c.members ++ [s]) : c.Grows d := by
  refine .intro ?_ ?_ ?_
  · rw [head]
    exact .same _
  · intro k linked
    rw [companion, linked]
  · rw [members]
    exact .append _ _

theorem grows_modifyClass (c : Container) {f : ClassHead → ClassHead}
    (grows : ∀ info : ClassHead, info.Grows (f info)) : c.Grows (modifyClass f c) := by
  unfold modifyClass
  split
  · next info head =>
    refine .intro ?_ (fun _ => id) (.refl _)
    rw [head]
    exact .classOrTrait (grows info)
  · exact .refl c

theorem grows_replace (found : c.find? k = some old) (inner : old.Grows new) :
    c.Grows (c.replace k new) := by
  obtain ⟨i, placed, here⟩ := exists_of_find? found
  rw [replace_of_place? placed]
  exact .intro (.same _) (fun _ => id) (.set here inner)

/-- Nothing is linked anew. -/
theorem grows_linkTo (alone : c.companion = none) (k : Key) : c.Grows (linkTo k c) := by
  refine .intro (.same _) ?_ (.refl _)
  intro other linked
  rw [alone] at linked
  contradiction

theorem Indexed.grows_link (indexed : c.Indexed) (first : c.find? j = some d)
    (second : c.find? k = some e) (apart : k ≠ j) (alone : d.companion = none)
    (alone' : e.companion = none) : c.Grows (c.link j k) := by
  have there : (c.modify j (linkTo k)).find? k = some e :=
    (indexed.find?_modify_of_ne apart).trans second
  unfold link
  rw [modify_of_find? there]
  refine Grows.trans ?_ (grows_replace there (grows_linkTo alone' j))
  rw [modify_of_find? first]
  exact grows_replace first (grows_linkTo alone k)

/-- A member has no companion while that is not there. -/
theorem Coherent.companion_eq_none (coherent : c.Coherent) (absent : c.place? k = none)
    (paired : k.companion? = some j) (found : c.find? j = some d) : d.companion = none := by
  obtain ⟨member, rfl⟩ := coherent.find?_eq_some.mp found
  rw [coherent.linked d member, partner?, Key.companion?_symm paired, Option.filter, absent]
  rfl

theorem Coherent.grows_ensure (coherent : c.Coherent) (k : Key) : c.Grows (c.ensure k) := by
  cases placed : c.place? k with
  | some i =>
    rw [ensure_of_place? placed]
    exact .refl c
  | none =>
    have created : c.Grows (c.create k) := grows_concat rfl rfl rfl
    cases met : c.partner? k with
    | none =>
      rw [ensure_alone placed met]
      exact created
    | some j =>
      obtain ⟨paired, there⟩ := partner?_eq_some.mp met
      rw [coherent.isSome_place?] at there
      obtain ⟨d, found⟩ := Option.isSome_iff_exists.mp there
      -- Neither end of the new link had a companion before, so that no link is lost.
      have apart : k ≠ j := (Key.companion?_ne paired).symm
      have kept : (c.create k).find? j = some d := find?_create_of_ne found apart
      rw [ensure_linked placed met]
      exact created.trans ((coherent.toIndexed.create placed).grows_link kept
        (find?_create_self placed) apart (coherent.companion_eq_none placed paired found) rfl)

theorem Develops.grows (develops : c.Develops d) (sound : c.Sound) : c.Grows d := by
  induction develops with
  | refl c => exact .refl c
  | trans first _ before after => exact (before sound).trans (after (first.evolves.sound sound))
  | comment c text => exact grows_concat rfl rfl rfl
  | field type absent => exact grows_concat rfl rfl rfl
  | method absent => exact grows_concat rfl rfl rfl
  | parents c types => exact grows_modifyClass c (·.grows_addParents types)
  | typeParams c params =>
    apply grows_modifyClass
    intro info
    exact ⟨rfl, List.prefix_append _ _, List.prefix_refl _, .inl rfl⟩
  | untrait c => exact grows_modifyClass c (·.grows_untrait)
  | ensure k _ => exact sound.coherent.grows_ensure k
  | inside found _ inner => exact grows_replace found (inner (sound.find? found))

/-! ## Growth at any place -/

theorem grows_put {path : Path} (found : c.get? path = some old) (inner : old.Grows new) :
    c.Grows (c.put new path) := by
  induction path generalizing c with
  | nil =>
    obtain rfl := Option.some.inj found
    exact inner
  | cons k path ih =>
    obtain ⟨d, here, below⟩ := Option.bind_eq_some_iff.mp found
    rw [put, modify_of_find? here]
    exact grows_replace here (ih below)

theorem Sound.grows_modifyAt (sound : c.Sound) (path : Path) {f : Container → Container}
    (inner : ∀ d : Container, d.Sound → d.Grows (f d)) : c.Grows (c.modifyAt path f) := by
  unfold modifyAt
  split
  · next d found => exact grows_put found (inner d (sound.of_get? found))
  · exact .refl c

end Container

namespace Walk
open Ambient (Signature)

theorem grows_enterAt (w : Walk) (sound : w.tree.Sound) (path : Path) (entries : List Entry) :
    w.tree.Grows (w.enterAt path entries).tree := by
  unfold enterAt
  split
  · next owner found =>
    exact Container.grows_put found
      ((Container.develops_enterAll owner entries).grows (sound.of_get? found))
  · exact .refl _

theorem grows_promote (w : Walk) (sound : w.tree.Sound) (enclosing : Path) (name : String)
    (signature : Signature) : w.tree.Grows (w.promote enclosing name signature).tree := by
  let k : Key := ⟨.classOrTrait, name⟩
  have made := sound.grows_modifyAt enclosing fun d inner => inner.coherent.grows_ensure k
  have sound₁ := (Container.evolves_modifyAt w.tree enclosing
    (f := (·.ensure k)) fun d => Container.evolves_ensure d k).sound sound
  have cleared := sound₁.grows_modifyAt (enclosing ++ [k]) (f := (·.setTrait false))
    fun d _ => Container.grows_modifyClass d (·.grows_untrait)
  have sound₂ := (Container.evolves_modifyAt _ (enclosing ++ [k])
    fun d => Container.evolves_setTrait d false).sound sound₁
  exact made.trans (cleared.trans (grows_enterAt { w with tree := _ } sound₂ _ _))

/-- Wherever a body is walked, its members only add to the tree. -/
theorem grows_member (w : Walk) (sound : w.tree.Sound) (site : Site) (node : Node) :
    w.tree.Grows (w.member site node).tree := by
  unfold member
  split
  · next signature =>
    obtain ⟨_, name, companion, _, _, promoted⟩ | ⟨companion, left⟩ :=
      constructor_cases w site signature
    · rw [promoted]
      exact grows_promote { w with companion } sound _ name signature
    · rw [left]
      exact grows_enterAt { w with companion } sound _ _
  · exact grows_enterAt w sound _ _

theorem grows_members (w : Walk) (sound : w.tree.Sound) (site : Site) (nodes : List Node) :
    w.tree.Grows (w.members site nodes).tree := by
  induction nodes generalizing w with
  | nil => exact .refl _
  | cons node nodes ih =>
    exact (grows_member w sound site node).trans
      (ih (w.member site node) ((evolves_member w site node).sound sound))

end Walk

/-- An import of more declarations continues the import of the first of them: it only adds notes,
and every container is found again where it was, grown. -/
theorem importTree_grows (first later : List Node) :
    let before := importTree first
    let after := importTree (first ++ later)
    before.fault = none ∧ after.fault = none ∧ before.notes <+: after.notes ∧
      before.container.Grows after.container ∧
      ∀ path old, before.container.get? path = some old →
        ∃ new, after.container.get? path = some new ∧ old.Grows new := by
  intro before after
  have sound : before.container.Sound := sound_importTree first
  have package : before.container.isPackage = true := isPackage_importTree first
  have continued := Container.declareAll_append Container.sound_root rfl first later
  have notes : after.notes = before.notes ++ (before.container.declareAll later).notes :=
    congrArg (·.notes) continued
  have tree : after.container = (before.container.declareAll later).container :=
    congrArg (·.container) continued
  have grows : before.container.Grows after.container := by
    rw [tree]
    exact (Container.develops_declareAll sound package later).grows sound
  refine ⟨fault_importTree _, fault_importTree _, ?_, grows, ?_⟩
  · rw [notes]
    exact List.prefix_append _ _
  · intro path old found
    exact grows.get? sound (sound_importTree _) found

end Facade
