import Facade.Proofs.Merging

/-! A walk over a body makes the reference to the companion at the first constructor that asks for
it, and keeps it. That cannot be told from the tree or the notes: no member changes what the
reference is made of, so that a walk comes to the same as a walk for each member. -/
namespace Facade
open Ambient (Node Signature)

/-! ## The reference of a body -/

namespace Container

variable {c d tree : Container} {k : Key} {path : Path} {site : Site} {x : String}

/-- The body at a site is that of the object of a name. -/
structure OwnedBy (tree : Container) (site : Site) (x : String) : Prop where
  enclosing : ∃ enclosing, tree.get? site.enclosing = some enclosing
  owner : ∃ owner, tree.get? site.owner = some owner ∧ owner.head = .object x

/-- How a body refers to the class of a name beside its owner, by the type parameters which that
class has in a tree. -/
def referenceAt (tree : Container) (site : Site) (x : String) : Node :=
  .named x ((tree.paramsAt (site.enclosing ++ [⟨.classOrTrait, x⟩])).map fun p => .named p.name [])

theorem companionReference_eq_referenceAt {enclosing : Container}
    (here : tree.get? site.enclosing = some enclosing) (x : String) :
    enclosing.companionReference x = tree.referenceAt site x := by
  have there : tree.paramsAt (site.enclosing ++ [⟨.classOrTrait, x⟩]) =
      enclosing.paramsAt [⟨.classOrTrait, x⟩] := by
    rw [paramsAt, get?_concat, here, Option.bind_some, paramsAt_key]
  rw [companionReference_eq, referenceAt, there]

/-- Everything is found where it was, and an object keeps its name. -/
theorem OwnedBy.grows (owned : c.OwnedBy site x) (left : c.Sound) (right : d.Sound)
    (grows : c.Grows d) : d.OwnedBy site x := by
  obtain ⟨⟨enclosing, here⟩, owner, found, head⟩ := owned
  obtain ⟨enclosing', here', _⟩ := grows.get? left right here
  obtain ⟨owner', found', grown⟩ := grows.get? left right found
  exact ⟨⟨enclosing', here'⟩, owner', found', (head ▸ grown.head).object⟩

theorem SameParams.referenceAt (same : c.SameParams d) (site : Site) (x : String) :
    d.referenceAt site x = c.referenceAt site x := by
  rw [Container.referenceAt, same, ← Container.referenceAt]

/-! ## A walk for each member -/

/-- Each member is visited by a walk of its own. -/
def visitEach (tree : Container) (site : Site) : List Node → Edit
  | [] => ⟨tree, []⟩
  | node :: nodes =>
      let first := tree.walkBody site [node]
      let rest := first.container.visitEach site nodes
      ⟨rest.container, first.notes ++ rest.notes⟩

end Container

namespace Walk

variable {w : Walk} {site : Site} {x : String}

/-- A reference at hand is the one that would be made now. -/
def Faithful (w : Walk) (site : Site) : Prop :=
  ∀ reference, w.companion = some reference →
    ∃ x, w.tree.OwnedBy site x ∧ reference = w.tree.referenceAt site x

theorem faithful_begun (tree : Container) (site : Site) : Walk.Faithful { tree } site := nofun

theorem constructor_of_ownedBy (faithful : w.Faithful site) (owned : w.tree.OwnedBy site x)
    (s : Signature) :
    w.constructor site s =
      let reference := w.tree.referenceAt site x
      let kept := { w with companion := some reference }
      if s.result.any (·.same reference) then kept.promote site.enclosing x s
      else kept.enterAt site.owner [.placeholder (.constructorMember s)] := by
  obtain ⟨⟨enclosing, here⟩, owner, found, head⟩ := owned
  have now : w.companion.getD (w.tree.referenceAt site x) = w.tree.referenceAt site x := by
    cases made : w.companion with
    | none => rfl
    | some reference =>
      -- The reference at hand was made for the same owner.
      obtain ⟨y, ⟨_, owner', found', head'⟩, rfl⟩ := faithful reference made
      obtain rfl := Option.some.inj (found.symm.trans found')
      obtain rfl := Head.object.inj (head.symm.trans head')
      rfl
  simp only [constructor, here, found, Option.map_some, head,
    Container.companionReference_eq_referenceAt here, now]

theorem constructor_of_not_ownedBy (elsewhere : ∀ x, ¬ w.tree.OwnedBy site x) (s : Signature) :
    w.constructor site s = w.enterAt site.owner [.placeholder (.constructorMember s)] := by
  unfold constructor
  split
  · next enclosing x here there =>
    exact absurd ⟨⟨enclosing, here⟩, Option.map_eq_some_iff.mp there⟩ (elsewhere x)
  · rfl

/-- A member does to the tree what it does in a walk of its own, and a reference is made only as
it would be made there. -/
theorem member_alone (faithful : w.Faithful site) (node : Node) :
    let alone := Walk.member { tree := w.tree } site node
    ∃ companion, w.member site node = ⟨alone.tree, w.notes ++ alone.notes, companion⟩ ∧
      (companion = w.companion ∨
        ∃ x, w.tree.OwnedBy site x ∧ companion = some (w.tree.referenceAt site x)) := by
  cases node with
  | constructorMember s =>
    by_cases object : ∃ x, w.tree.OwnedBy site x
    · obtain ⟨x, owned⟩ := object
      have kept := constructor_of_ownedBy faithful owned s
      have begun := constructor_of_ownedBy (faithful_begun w.tree site) owned s
      dsimp only [member] at kept begun ⊢
      rw [kept, begun]
      refine ⟨some (w.tree.referenceAt site x), ?_, .inr ⟨x, owned, rfl⟩⟩
      split
      · rw [promote_eq, promote_eq { tree := w.tree, companion := some _ }]
        simp only [List.nil_append]
      · rw [enterAt_eq, enterAt_eq { tree := w.tree, companion := some _ }]
        simp only [List.nil_append]
    · have elsewhere : ∀ x, ¬ w.tree.OwnedBy site x := fun x owned => object ⟨x, owned⟩
      dsimp only [member]
      rw [constructor_of_not_ownedBy elsewhere,
        constructor_of_not_ownedBy (w := { tree := w.tree }) elsewhere]
      exact ⟨w.companion, enterAt_eq w _ _, .inl rfl⟩
  | _ => exact ⟨w.companion, enterAt_eq w _ _, .inl rfl⟩

theorem faithful_member (sound : w.tree.Sound) (faithful : w.Faithful site) (node : Node) :
    (w.member site node).Faithful site := by
  obtain ⟨companion, done, origin⟩ := member_alone faithful node
  intro reference made
  have before : ∃ x, w.tree.OwnedBy site x ∧ reference = w.tree.referenceAt site x := by
    rw [done] at made
    rcases origin with rfl | ⟨x, owned, rfl⟩
    · exact faithful reference made
    · exact ⟨x, owned, (Option.some.inj made).symm⟩
  obtain ⟨x, owned, rfl⟩ := before
  -- Neither the owner nor the type parameters of the class can change under the walk.
  have right := (evolves_member w site node).sound sound
  exact ⟨x, owned.grows sound right (grows_member w sound site node),
    ((sameParams_member w sound site node).referenceAt site x).symm⟩

theorem members_eq_visitEach (sound : w.tree.Sound) (faithful : w.Faithful site)
    (nodes : List Node) :
    let each := w.tree.visitEach site nodes
    (w.members site nodes).tree = each.container ∧
      (w.members site nodes).notes = w.notes ++ each.notes := by
  induction nodes generalizing w with
  | nil => exact ⟨rfl, (List.append_nil _).symm⟩
  | cons node nodes ih =>
    obtain ⟨companion, done, _⟩ := member_alone faithful node
    have rest := ih ((evolves_member w site node).sound sound)
      (faithful_member sound faithful node)
    have tree := congrArg Walk.tree done
    have notes := congrArg Walk.notes done
    dsimp only at tree notes rest ⊢
    rw [tree, notes, List.append_assoc] at rest
    exact rest

end Walk

namespace Container

variable {c d tree : Container} {k : Key} {path : Path} {site : Site} {x : String}

theorem Sound.walkBody_eq_visitEach (sound : tree.Sound) (site : Site) (nodes : List Node) :
    tree.walkBody site nodes = tree.visitEach site nodes := by
  obtain ⟨container, notes⟩ :=
    Walk.members_eq_visitEach sound (Walk.faithful_begun tree site) nodes
  change Edit.mk _ _ = Edit.mk (tree.visitEach site nodes).container _
  exact congr (congrArg Edit.mk container) notes

theorem visitEach_append (tree : Container) (site : Site) (first second : List Node) :
    tree.visitEach site (first ++ second) =
      let before := tree.visitEach site first
      let after := before.container.visitEach site second
      ⟨after.container, before.notes ++ after.notes⟩ := by
  induction first generalizing tree with
  | nil => rfl
  | cons node first ih => simp only [List.cons_append, visitEach, ih, List.append_assoc]

theorem Sound.walkBody_around (sound : tree.Sound) (site : Site) (before : List Node)
    (node : Node) (after : List Node) :
    tree.walkBody site (before ++ node :: after) =
      let now := tree.walkBody site before
      let here := now.container.walkBody site [node]
      let rest := here.container.walkBody site after
      ⟨rest.container, now.notes ++ here.notes ++ rest.notes⟩ := by
  have sound₁ := (evolves_walkBody tree site before).sound sound
  have sound₂ := (evolves_walkBody (tree.walkBody site before).container site [node]).sound sound₁
  dsimp only
  rw [sound.walkBody_eq_visitEach, sound₂.walkBody_eq_visitEach, visitEach_append,
    ← sound.walkBody_eq_visitEach]
  simp only [visitEach, List.append_assoc]

/-! ## Constructors -/

theorem any_same_referenceAt {s : Signature} :
    s.result.any (·.same (tree.referenceAt site x)) = true ↔
      s.result = some (tree.referenceAt site x) := by
  have reference : tree.referenceAt site x = .named x
      (((tree.paramsAt (site.enclosing ++ [⟨.classOrTrait, x⟩])).map (·.name)).map
        (.named · [])) := by
    rw [referenceAt, List.map_map]
    rfl
  rw [reference, Ambient.Node.any_same_named]

theorem OwnedBy.walkBody_promoted (owned : tree.OwnedBy site x) {s : Signature}
    (fits : s.result = some (tree.referenceAt site x)) :
    tree.walkBody site [.constructorMember s] =
      let after := Walk.promote { tree } site.enclosing x s
      ⟨after.tree, after.notes⟩ := by
  have step := Walk.constructor_of_ownedBy (Walk.faithful_begun tree site) owned s
  dsimp only at step
  rw [if_pos (any_same_referenceAt.mpr fits), Walk.promote_eq] at step
  have ended := congrArg (fun w : Walk => Edit.mk w.tree w.notes) step
  exact ended

theorem OwnedBy.walkBody_left (owned : tree.OwnedBy site x) {s : Signature}
    (differs : s.result ≠ some (tree.referenceAt site x)) :
    tree.walkBody site [.constructorMember s] =
      let after := Walk.enterAt { tree } site.owner [.placeholder (.constructorMember s)]
      ⟨after.tree, after.notes⟩ := by
  have step := Walk.constructor_of_ownedBy (Walk.faithful_begun tree site) owned s
  dsimp only at step
  rw [if_neg fun fits => differs (any_same_referenceAt.mp fits), Walk.enterAt_eq] at step
  have ended := congrArg (fun w : Walk => Edit.mk w.tree w.notes) step
  exact ended

/-! ## The class beside the owner -/

theorem Sound.find?_enterAll (sound : c.Sound) (entries : List Entry) (k : Key) :
    (c.enterAll entries).container.find? k = c.find? k := by
  induction entries generalizing c with
  | nil => rfl
  | cons entry entries ih =>
    exact (ih ((evolves_enter c entry).sound sound)).trans (sound.coherent.find?_enter_eq entry)

theorem Sound.isSome_get?_put {old new : Container} (sound : c.Sound)
    (found : c.get? path = some old) (inner : ∀ q, (new.get? q).isSome = (old.get? q).isSome)
    (q : Path) : ((c.put new path).get? q).isSome = (c.get? q).isSome := by
  induction path generalizing c q with
  | nil =>
    obtain rfl := Option.some.inj found
    exact inner q
  | cons k path ih =>
    obtain ⟨d, here, below⟩ := Option.bind_eq_some_iff.mp found
    rw [put, modify_of_find? here]
    cases q with
    | nil => rfl
    | cons j q =>
      by_cases same : j = k
      · subst j
        rw [get?, get?, find?_replace_self here, here]
        exact ih (sound.find? here) below q
      · rw [get?, get?, sound.coherent.find?_replace_of_ne same]

theorem Sound.isSome_get?_enterAt (sound : tree.Sound) (path : Path) (entries : List Entry)
    (q : Path) :
    ((Walk.enterAt { tree } path entries).tree.get? q).isSome = (tree.get? q).isSome := by
  unfold Walk.enterAt
  split
  · next owner found =>
    refine sound.isSome_get?_put found (fun q => ?_) q
    cases q with
    | nil => rfl
    | cons k q => rw [get?, get?, (sound.of_get? found).find?_enterAll]
  · rfl

theorem Sound.exists_get?_promote (sound : tree.Sound) {enclosing : Container}
    (here : tree.get? path = some enclosing) (x : String) (s : Signature) :
    ∃ d, (Walk.promote { tree } path x s).tree.get? (path ++ [⟨.classOrTrait, x⟩]) = some d := by
  obtain ⟨d, made, _⟩ := (sound.of_get? here).coherent.exists_find?_ensure ⟨.classOrTrait, x⟩
  have opened : (tree.modifyAt path (·.ensure ⟨.classOrTrait, x⟩)).get?
      (path ++ [⟨.classOrTrait, x⟩]) = some d := by
    simp only [modifyAt, here, get?_concat, get?_put_self here, Option.bind_some, made]
  have cleared : ((tree.modifyAt path (·.ensure ⟨.classOrTrait, x⟩)).put (d.setTrait false)
      (path ++ [⟨.classOrTrait, x⟩])).get? (path ++ [⟨.classOrTrait, x⟩]) =
        some (d.setTrait false) := get?_put_self opened
  unfold Walk.promote Walk.enterAt
  simp only [modifyAt] at opened cleared ⊢
  simp only [opened, cleared]
  exact ⟨_, get?_put_self cleared⟩

/-- A class is made for a constructor that is promoted, and for nothing else. -/
theorem Sound.isSome_get?_visit (sound : tree.Sound) (owned : tree.OwnedBy site x) (node : Node) :
    let place := site.enclosing ++ [⟨.classOrTrait, x⟩]
    ((tree.walkBody site [node]).container.get? place).isSome = true ↔
      (tree.get? place).isSome = true ∨
        ∃ s, node = .constructorMember s ∧ s.result = some (tree.referenceAt site x) := by
  cases node with
  | constructorMember s =>
    by_cases fits : s.result = some (tree.referenceAt site x)
    · obtain ⟨enclosing, here⟩ := owned.enclosing
      obtain ⟨d, made⟩ := sound.exists_get?_promote here x s
      simp [owned.walkBody_promoted fits, made, fits]
    · simp [owned.walkBody_left fits, sound.isSome_get?_enterAt, fits]
  | _ =>
    have entered := sound.isSome_get?_enterAt site.owner
    simp [walkBody, Walk.members, Walk.member, entered]

theorem Sound.isSome_get?_walkBody (sound : tree.Sound) (owned : tree.OwnedBy site x)
    (nodes : List Node) :
    let place := site.enclosing ++ [⟨.classOrTrait, x⟩]
    ((tree.walkBody site nodes).container.get? place).isSome = true ↔
      (tree.get? place).isSome = true ∨
        ∃ s, .constructorMember s ∈ nodes ∧ s.result = some (tree.referenceAt site x) := by
  -- With a walk for each member, the first one leaves a tree to which the rest applies.
  simp only [sound.walkBody_eq_visitEach]
  induction nodes generalizing tree with
  | nil => simp [visitEach]
  | cons node nodes ih =>
    have first := evolves_walkBody tree site [node]
    have grows := Walk.grows_members { tree } sound site [node]
    have same := (sound.sameParams_walkBody site [node]).referenceAt site x
    have here := sound.isSome_get?_visit owned node
    have rest := ih (first.sound sound) (owned.grows sound (first.sound sound) grows)
    dsimp only at here
    rw [same, here, or_assoc] at rest
    refine rest.trans (or_congr_right ?_)
    simp only [List.mem_cons, or_and_right, exists_or, eq_comm]

end Container

/-- A walk that goes on as a walk of its own. -/
def Walk.resume (w : Walk) (site : Site) (nodes : List Node) : Edit :=
  let rest := w.tree.walkBody site nodes
  ⟨rest.container, w.notes ++ rest.notes⟩

namespace Container

variable {tree : Container} {site : Site} {x : String}

/-- Wherever a body is walked, keeping the reference comes to the same as a walk for each member.
In the body of an object, a constructor goes to the companion class exactly if its result is the
name applied to the type parameters that the class had before the walk, and is left as a placeholder
otherwise; the class is there afterwards exactly if it was there before or a constructor went to
it. -/
theorem walkBody_visits (reached : tree.Reachable) (site : Site) (nodes : List Node) :
    tree.walkBody site nodes = tree.visitEach site nodes ∧
    ∀ x, tree.OwnedBy site x →
      let reference := tree.referenceAt site x
      let place := site.enclosing ++ [⟨.classOrTrait, x⟩]
      (∀ before s after, nodes = before ++ .constructorMember s :: after →
        let now : Walk :=
          ⟨(tree.walkBody site before).container, (tree.walkBody site before).notes, none⟩
        (s.result = some reference →
          tree.walkBody site nodes = (now.promote site.enclosing x s).resume site after) ∧
        (s.result ≠ some reference →
          tree.walkBody site nodes = (now.enterAt site.owner
            [.placeholder (.constructorMember s)]).resume site after)) ∧
      (((tree.walkBody site nodes).container.get? place).isSome = true ↔
        (tree.get? place).isSome = true ∨
          ∃ s, .constructorMember s ∈ nodes ∧ s.result = some reference) := by
  have sound := reached.sound
  refine ⟨sound.walkBody_eq_visitEach site nodes, fun x owned => ⟨?_,
    sound.isSome_get?_walkBody owned nodes⟩⟩
  rintro before s after rfl
  have walked := (evolves_walkBody tree site before).sound sound
  have owned' := owned.grows sound walked (Walk.grows_members { tree } sound site before)
  have same := (sound.sameParams_walkBody site before).referenceAt site x
  refine ⟨fun fits => ?_, fun differs => ?_⟩
  · rw [Walk.promote_eq]
    simp only [sound.walkBody_around, owned'.walkBody_promoted (same.symm ▸ fits), Walk.resume]
  · rw [Walk.enterAt_eq]
    simp only [sound.walkBody_around, owned'.walkBody_left (same.symm ▸ differs), Walk.resume]

/-- In a namespace, an interface with a type parameter and an object of its name. One constructor
has the parameter and one has not. -/
theorem walkBody_visits_parametrized :
    let piece : Node := .interfaceDecl (.plain "A") [⟨.plain "T", none⟩] [] []
    let object : Node := .varDecl "A" (some (.objectType []))
    let tree := (Container.root.declare (.moduleDecl "js" [piece, object])).container
    let site : Site := ⟨[⟨.package, "js"⟩], [⟨.package, "js"⟩, ⟨.object, "A"⟩]⟩
    let made : Signature := ⟨[], [], some (.named "A" [.named "T" []])⟩
    let bare : Signature := ⟨[], [], some (.named "A" [])⟩
    let nodes : List Node := [.constructorMember bare, .constructorMember made]
    tree.Reachable ∧ tree.OwnedBy site "A" ∧
      made.result = some (tree.referenceAt site "A") ∧
      bare.result ≠ some (tree.referenceAt site "A") ∧
      tree.walkBody site nodes = tree.visitEach site nodes ∧
      tree.walkBody site nodes = (Walk.enterAt { tree } site.owner
        [.placeholder (.constructorMember bare)]).resume site [.constructorMember made] ∧
      ((tree.walkBody site nodes).container.get?
        [⟨.package, "js"⟩, ⟨.classOrTrait, "A"⟩]).isSome = true := by
  intro piece object tree site made bare nodes
  have reached : tree.Reachable :=
    .step [] (.change (.declare (.moduleDecl "js" [piece, object]))) .root rfl
  have owned : tree.OwnedBy site "A" := ⟨⟨_, rfl⟩, _, rfl, rfl⟩
  have fits : made.result = some (tree.referenceAt site "A") := rfl
  have differs : bare.result ≠ some (tree.referenceAt site "A") := nofun
  obtain ⟨each, inObject⟩ := walkBody_visits reached site nodes
  obtain ⟨went, there⟩ := inObject "A" owned
  exact ⟨reached, owned, fits, differs, each,
    (went [] bare [.constructorMember made] rfl).2 differs,
    there.mpr (.inr ⟨made, .tail _ (.head _), fits⟩)⟩

end Container
end Facade
