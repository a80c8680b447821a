import Facade.Proofs.Simulation

/-! Declarations of other names do not interfere. What a package shows under one name is the
work of the declarations of that name alone, whatever stands between them. -/
namespace Facade
open Ambient (Node Signature)

/-- Comments have no name. -/
def Symbol.name? : Symbol → Option String
  | .comment _ => none
  | .field name _ => some name
  | .method m => some m.name
  | .container c => some c.name

def Ambient.Node.declaredName? : Node → Option String
  | .moduleDecl name _ => some name
  | .varDecl name _ => some name
  | .typeDecl name _ => some name.text
  | .interfaceDecl name _ _ _ => some name.text
  | .functionDecl name _ => some name
  | _ => none

/-- The name of the symbol that an entry may add. -/
def Entry.name? : Entry → Option String
  | .field name _ => some name
  | .method m => some m.name
  | .specialized _ => none
  | .placeholder _ => none

namespace Container

def named (c : Container) (x : String) : List Symbol := c.members.filter (·.name? == some x)

variable {c d e new old : Container} {j k : Key} {x : String}

theorem mem_named {s : Symbol} : s ∈ c.named x ↔ s ∈ c.members ∧ s.name? = some x := by
  simp only [named, List.mem_filter, beq_iff_eq]

theorem Indexed.find?_iff_named (indexed : c.Indexed) (name : k.name = x) :
    c.find? k = some e ↔ .container e ∈ c.named x ∧ e.key = k := by
  rw [indexed.find?_eq_some, mem_named]
  constructor
  · rintro ⟨member, rfl⟩
    exact ⟨⟨member, congrArg some name⟩, rfl⟩
  · rintro ⟨⟨member, _⟩, key⟩
    exact ⟨member, key⟩

theorem Indexed.hasField_iff_named (indexed : c.Indexed) :
    c.hasField x = true ↔ ∃ type, .field x type ∈ c.named x := by
  simp only [hasField, Option.isSome_iff_exists, lookup_eq_some_iff_mem indexed.fieldNames,
    indexed.fields]
  constructor
  · rintro ⟨i, type, here⟩
    exact ⟨type, mem_named.mpr ⟨List.mem_of_getElem? here, rfl⟩⟩
  · rintro ⟨type, member⟩
    obtain ⟨i, here⟩ := List.mem_iff_getElem?.mp (mem_named.mp member).1
    exact ⟨i, type, here⟩

theorem Indexed.hasOverload_iff_named (indexed : c.Indexed) {o : Method.Overload}
    (name : o.name = x) : c.hasOverload o = true ↔ ∃ m, .method m ∈ c.named x ∧ m.overload = o := by
  simp only [hasOverload, List.contains_iff_mem, indexed.overloads, List.mem_map, methods,
    List.mem_filterMap, mem_named]
  constructor
  · rintro ⟨m, ⟨s, member, same⟩, rfl⟩
    cases s with
    | method n =>
      obtain rfl := Option.some.inj same
      exact ⟨n, ⟨member, congrArg some name⟩, rfl⟩
    | comment text | field name type | container e => contradiction
  · rintro ⟨m, ⟨member, _⟩, rfl⟩
    exact ⟨m, ⟨_, member, rfl⟩, rfl⟩

theorem named_concat {s : Symbol} (members : d.members = c.members ++ [s]) :
    d.named x = c.named x ++ [s].filter (·.name? == some x) := by
  simp only [named, members, List.filter_append]

theorem named_concat_of_ne {s : Symbol} (members : d.members = c.members ++ [s])
    (differ : s.name? ≠ some x) : d.named x = c.named x := by
  simp [named_concat members, differ]

theorem Indexed.named_replace (indexed : c.Indexed) (found : c.find? k = some old)
    (key : new.key = k) : (c.replace k new).named x = (c.named x).map (Symbol.supplant k new) := by
  have kept : ∀ s, (Symbol.supplant k new s).name? = s.name? := by
    intro s
    cases s with
    | container e =>
      simp only [Symbol.supplant]
      split
      · next same => simp only [Symbol.name?, name, key, same]
      · rfl
    | comment text | field name type | method m => rfl
  simp only [named, indexed.members_replace found, List.filter_map, Function.comp_def, kept]

theorem Indexed.named_replace_of_ne (indexed : c.Indexed) (found : c.find? k = some old)
    (key : new.key = k) (differ : k.name ≠ x) : (c.replace k new).named x = c.named x := by
  rw [indexed.named_replace found key]
  refine (List.map_congr_left fun s member => ?_).trans (List.map_id _)
  cases s with
  | container e =>
    have name : e.key.name = x := Option.some.inj (mem_named.mp member).2
    have apart : e.key ≠ k := fun same => differ (same ▸ name)
    simp only [Symbol.supplant, apart, ↓reduceIte, id]
  | comment text | field name type | method m => rfl

/-- Two packages that show the same under a name, in whatever company. -/
structure Alike (x : String) (c d : Container) : Prop where
  head : c.head = d.head
  named : c.named x = d.named x

theorem Alike.refl (x : String) (c : Container) : Alike x c c := ⟨rfl, rfl⟩

theorem Alike.trans (first : Alike x c d) (second : Alike x d e) : Alike x c e :=
  ⟨first.head.trans second.head, first.named.trans second.named⟩

theorem Alike.find? (alike : Alike x c d) (left : c.Indexed) (right : d.Indexed)
    (name : k.name = x) : c.find? k = d.find? k := by
  apply Option.ext
  intro e
  rw [left.find?_iff_named name, right.find?_iff_named name, alike.named]

theorem Alike.replace (alike : Alike x c d) (left : c.Indexed) (right : d.Indexed)
    (found : c.find? k = some old) (key : new.key = k) (name : k.name = x) :
    Alike x (c.replace k new) (d.replace k new) where
  head := by simpa only [head_replace] using alike.head
  named := by
    have found' := (alike.find? left right name).symm.trans found
    rw [left.named_replace found key, right.named_replace found' key, alike.named]

theorem Alike.modify (alike : Alike x c d) (left : c.Indexed) (right : d.Indexed)
    {f : Container → Container} (key : ∀ e, (f e).key = e.key) (name : k.name = x) :
    Alike x (c.modify k f) (d.modify k f) := by
  have same := alike.find? left right name
  cases found : c.find? k with
  | none => rwa [modify_of_absent found, modify_of_absent (same.symm.trans found)]
  | some e =>
    rw [modify_of_find? found, modify_of_find? (same.symm.trans found)]
    exact alike.replace left right found ((key e).trans (left.key_of_find? found)) name

theorem alike_modify_of_ne (indexed : c.Indexed) {f : Container → Container}
    (key : ∀ e, (f e).key = e.key) (differ : k.name ≠ x) : Alike x (c.modify k f) c := by
  cases found : c.find? k with
  | none => rw [modify_of_absent found]; exact .refl x c
  | some e =>
    rw [modify_of_find? found]
    exact ⟨head_replace, indexed.named_replace_of_ne found
      ((key e).trans (indexed.key_of_find? found)) differ⟩

theorem Alike.place? (alike : Alike x c d) (left : c.Indexed) (right : d.Indexed)
    (name : k.name = x) : (c.place? k).isSome = (d.place? k).isSome := by
  rw [left.isSome_place?, right.isSome_place?, alike.find? left right name]

theorem Alike.partner? (alike : Alike x c d) (left : c.Indexed) (right : d.Indexed)
    (name : k.name = x) : c.partner? k = d.partner? k := by
  unfold Container.partner?
  cases paired : k.companion? with
  | none => rfl
  | some j =>
    have same := alike.place? left right (k := j) ((Key.companion?_name paired).trans name)
    simp only [Option.filter, same]

theorem Alike.create (alike : Alike x c d) (k : Key) : Alike x (c.create k) (d.create k) where
  head := alike.head
  named := by
    rw [named_concat (d := c.create k) rfl, named_concat (d := d.create k) rfl, alike.named]

theorem Alike.link (alike : Alike x c d) (left : c.Indexed) (right : d.Indexed)
    (first : j.name = x) (second : k.name = x) : Alike x (c.link j k) (d.link j k) :=
  (alike.modify left right (f := linkTo k) (fun _ => rfl) first).modify (left.linkOne j k)
    (right.linkOne j k) (f := linkTo j) (fun _ => rfl) second

theorem alike_link_of_ne (indexed : c.Indexed) (first : j.name ≠ x) (second : k.name ≠ x) :
    Alike x (c.link j k) c :=
  (alike_modify_of_ne (indexed.linkOne j k) (f := linkTo j) (fun _ => rfl) second).trans
    (alike_modify_of_ne indexed (f := linkTo k) (fun _ => rfl) first)

theorem Alike.ensure (alike : Alike x c d) (left : c.Indexed) (right : d.Indexed)
    (name : k.name = x) : Alike x (c.ensure k) (d.ensure k) := by
  have places := alike.place? left right name
  have partners := alike.partner? left right name
  cases placed : c.place? k with
  | some i =>
    rw [placed, Option.isSome_some] at places
    obtain ⟨i', placed'⟩ := Option.isSome_iff_exists.mp places.symm
    rwa [ensure_of_place? placed, ensure_of_place? placed']
  | none =>
    rw [placed, Option.isSome_none] at places
    have placed' : d.place? k = none := by simpa using places.symm
    cases met : c.partner? k with
    | none =>
      rw [ensure_alone placed met, ensure_alone placed' (partners.symm.trans met)]
      exact alike.create k
    | some j =>
      have name' := (Key.companion?_name (partner?_eq_some.mp met).1).trans name
      rw [ensure_linked placed met, ensure_linked placed' (partners.symm.trans met)]
      exact (alike.create k).link (left.create placed) (right.create placed') name' name

theorem alike_ensure_of_ne (indexed : c.Indexed) (differ : k.name ≠ x) :
    Alike x (c.ensure k) c := by
  have created : Alike x (c.create k) c := by
    refine ⟨rfl, named_concat_of_ne (d := c.create k) rfl fun same => differ ?_⟩
    simpa only [Symbol.name?, name, key_fresh, Option.some.injEq] using same
  cases placed : c.place? k with
  | some i =>
    rw [ensure_of_place? placed]
    exact .refl x c
  | none =>
    cases met : c.partner? k with
    | none => rwa [ensure_alone placed met]
    | some j =>
      have differ' : j.name ≠ x := by rwa [Key.companion?_name (partner?_eq_some.mp met).1]
      rw [ensure_linked placed met]
      exact (alike_link_of_ne (indexed.create placed) differ' differ).trans created

theorem Alike.title (alike : Alike x c d) : c.title = d.title := congrArg Head.title alike.head

theorem Alike.isPackage (alike : Alike x c d) : c.isPackage = d.isPackage := by
  simp only [Container.isPackage, kind, key, alike.head]

/-- An entry under the name is answered alike. -/
theorem Alike.enter (alike : Alike x c d) (left : c.Indexed) (right : d.Indexed) {entry : Entry}
    (name : ∀ y, entry.name? = some y → y = x) :
    Alike x (c.enter entry).container (d.enter entry).container ∧
      (c.enter entry).notes = (d.enter entry).notes := by
  cases entry with
  | field y type =>
    obtain rfl := name y rfl
    have same : c.hasField y = d.hasField y := by
      rw [Bool.eq_iff_iff, left.hasField_iff_named, right.hasField_iff_named, alike.named]
    rw [enter_field, enter_field, same, alike.title]
    split
    · exact ⟨alike, rfl⟩
    · refine ⟨⟨alike.head, ?_⟩, rfl⟩
      rw [named_concat (d := c.addField y type) rfl, named_concat (d := d.addField y type) rfl,
        alike.named]
  | method m =>
    have same : c.hasOverload m.overload = d.hasOverload m.overload := by
      rw [Bool.eq_iff_iff, left.hasOverload_iff_named (name m.name rfl),
        right.hasOverload_iff_named (name m.name rfl), alike.named]
    rw [enter_method, enter_method, same, alike.title]
    split
    · exact ⟨alike, rfl⟩
    · refine ⟨⟨alike.head, ?_⟩, rfl⟩
      rw [named_concat (d := c.addMethod m) rfl, named_concat (d := d.addMethod m) rfl,
        alike.named]
  | specialized y =>
    exact ⟨alike, congrArg (fun title => [Note.specialized y title]) alike.title⟩
  | placeholder node =>
    refine ⟨⟨alike.head, ?_⟩,
      congrArg (fun title => [Note.placeholder title node.kind]) alike.title⟩
    rw [named_concat_of_ne (d := (c.enter (.placeholder node)).container) rfl nofun,
      named_concat_of_ne (d := (d.enter (.placeholder node)).container) rfl nofun, alike.named]

theorem alike_enter_of_ne (c : Container) {entry : Entry} (differ : entry.name? ≠ some x) :
    Alike x (c.enter entry).container c := by
  cases entry with
  | field y type =>
    rw [enter_field]
    split
    · exact .refl x c
    · exact ⟨rfl, named_concat_of_ne (d := c.addField y type) rfl differ⟩
  | method m =>
    rw [enter_method]
    split
    · exact .refl x c
    · exact ⟨rfl, named_concat_of_ne (d := c.addMethod m) rfl differ⟩
  | specialized y => exact .refl x c
  | placeholder node =>
    exact ⟨rfl, named_concat_of_ne (d := (c.enter (.placeholder node)).container) rfl nofun⟩

end Container

namespace Walk

variable {w : Walk} {k : Key} {x : String}

theorem alike_enterAt_of_ne (sound : w.tree.Sound) (differ : k.name ≠ x) (entries : List Entry) :
    Container.Alike x (w.enterAt [k] entries).tree w.tree := by
  cases found : w.tree.find? k with
  | none => rw [enterAt_absent found]; exact .refl x _
  | some owner =>
    rw [enterAt_key found]
    have key := (Container.evolves_enterAll owner entries).key.trans
      (sound.coherent.key_of_find? found)
    exact ⟨Container.head_replace, sound.coherent.named_replace_of_ne found key differ⟩

theorem alike_promote_of_ne (sound : w.tree.Sound) {y : String} (differ : y ≠ x)
    (signature : Signature) : Container.Alike x (w.promote [] y signature).tree w.tree := by
  have coherent := sound.coherent
  have opened : Container.Alike x (w.tree.openClass y) w.tree :=
    (Container.alike_modify_of_ne (coherent.ensure _).toIndexed
      (fun e => (Container.evolves_setTrait e false).key) differ).trans
      (Container.alike_ensure_of_ne coherent.toIndexed differ)
  have soundOpened := (Container.evolves_openClass w.tree y).sound sound
  rw [promote_nil]
  exact (alike_enterAt_of_ne (w := { w with tree := w.tree.openClass y }) soundOpened
    (k := ⟨.classOrTrait, y⟩) differ _).trans opened

theorem alike_constructor_of_ne (sound : w.tree.Sound) (differ : k.name ≠ x)
    (signature : Signature) :
    Container.Alike x (w.constructor ⟨[], [k]⟩ signature).tree w.tree := by
  obtain ⟨owner, y, companion, found, head, promoted⟩ | ⟨companion, left⟩ :=
    constructor_cases w ⟨[], [k]⟩ signature
  · have key := sound.coherent.key_of_find? ((Container.get?_key w.tree k).symm.trans found)
    have own : y = k.name := by
      rw [← key, Container.key, head]
      rfl
    rw [promoted]
    exact alike_promote_of_ne (w := { w with companion }) sound (own ▸ differ) signature
  · rw [left]
    exact alike_enterAt_of_ne (w := { w with companion }) sound differ _

theorem alike_member_of_ne (sound : w.tree.Sound) (differ : k.name ≠ x) (node : Node) :
    Container.Alike x (w.member ⟨[], [k]⟩ node).tree w.tree := by
  unfold Walk.member
  split
  · exact alike_constructor_of_ne sound differ _
  · exact alike_enterAt_of_ne sound differ _

theorem alike_members_of_ne (sound : w.tree.Sound) (differ : k.name ≠ x) (nodes : List Node) :
    Container.Alike x (w.members ⟨[], [k]⟩ nodes).tree w.tree := by
  induction nodes generalizing w with
  | nil => exact .refl x _
  | cons node nodes ih =>
    have evolves := evolves_member w ⟨[], [k]⟩ node
    exact (ih (evolves.sound sound)).trans (alike_member_of_ne sound differ node)

end Walk

theorem Ambient.Node.declaredName?_of_opened {node : Node} {k : Key}
    (opened : node.opened? = some k) : node.declaredName? = some k.name := by
  cases node with
  | moduleDecl | interfaceDecl =>
    cases opened
    rfl
  | varDecl name type =>
    cases type with
    | none => contradiction
    | some type =>
      cases type with
      | objectType members =>
        cases opened
        rfl
      | _ => contradiction
  | typeDecl name type =>
    cases type with
    | objectType members =>
      cases opened
      rfl
    | _ => contradiction
  | _ => contradiction

theorem Ambient.Node.declaredName?_of_single {node : Node} {entry : Entry} {y : String}
    (single : node.single? = some entry) (name : entry.name? = some y) :
    node.declaredName? = some y := by
  cases node with
  | varDecl z type =>
    cases type with
    | none => cases single; exact name
    | some type => cases type <;> cases single <;> exact name
  | typeDecl z type => cases type <;> cases single <;> contradiction
  | functionDecl z signature =>
    cases single
    unfold Ambient.Signature.entry at name
    split at name
    · contradiction
    · exact name
  | _ => cases single <;> contradiction

namespace Container

variable {c d : Container} {k : Key} {x : String}

theorem alike_walkBody_of_ne (sound : c.Sound) (differ : k.name ≠ x) (members : List Node) :
    Alike x (c.walkBody ⟨[], [k]⟩ members).container c :=
  Walk.alike_members_of_ne (w := { tree := c }) sound differ members

theorem alike_fill_of_ne (sound : c.Sound) (differ : k.name ≠ x) (members : List Node) :
    Alike x (c.fill k members).container c :=
  (alike_walkBody_of_ne ((evolves_ensure c k).sound sound) differ members).trans
    (alike_ensure_of_ne sound.coherent.toIndexed differ)

theorem alike_declareInterface_of_ne (sound : c.Sound) {y : String} (differ : y ≠ x)
    (typeParams : List TypeParam) (parents : List HostType) (members : List Node) :
    Alike x (c.declareInterface y typeParams parents members).container c := by
  have opened := alike_ensure_of_ne sound.coherent.toIndexed (k := ⟨.classOrTrait, y⟩) differ
  have extended : Alike x (c.extendClass y typeParams parents) c :=
    (alike_modify_of_ne (sound.coherent.ensure _).toIndexed
      (fun e => (evolves_extended e typeParams parents).key) differ).trans opened
  rw [declareInterface_eq]
  exact (alike_walkBody_of_ne ((evolves_extendClass c y typeParams parents).sound sound) differ
    members).trans extended

/-- A declaration of another name, or of none, changes nothing under the name. -/
theorem alike_declare_of_ne (sound : c.Sound) (package : c.isPackage = true) {node : Node}
    (differ : node.declaredName? ≠ some x) : Alike x (c.declare node).container c := by
  have apart : ∀ y, node.declaredName? = some y → y ≠ x := by
    rintro y named rfl
    exact differ named
  cases node.form with
  | package name members =>
    obtain ⟨inner, found, evolves, done⟩ := sound.declare_moduleDecl package name members
    have coherent := sound.coherent.ensure ⟨.package, name⟩
    rw [done]
    exact Alike.trans
      ⟨head_replace, coherent.named_replace_of_ne found
        (evolves.key.trans (coherent.key_of_find? found)) (apart name rfl)⟩
      (alike_ensure_of_ne sound.coherent.toIndexed (apart name rfl))
  | object name members => exact alike_fill_of_ne sound (apart name rfl) members
  | record name members => exact alike_fill_of_ne sound (apart name.text rfl) members
  | interface name typeParams parents members =>
    exact alike_declareInterface_of_ne sound (apart name.text rfl) _ _ members
  | single single =>
    rw [declare_single single]
    exact alike_enter_of_ne c fun name =>
      differ (Ambient.Node.declaredName?_of_single single name)

end Container

/-- Soundness goes with likeness, since only sound packages are looked up by their members. -/
def alikeUnder (x : String) : Simulation (·.name = x)
    (fun entry => ∀ y, entry.name? = some y → y = x) where
  rel c d := Container.Alike x c d ∧ c.Sound ∧ d.Sound
  left related := related.2.1
  right related := related.2.2
  package related := related.1.isPackage
  paired met name := (Key.companion?_name met).trans name
  find? := fun ⟨alike, left, right⟩ name =>
    alike.find? left.coherent.toIndexed right.coherent.toIndexed name
  replace := fun ⟨alike, left, right⟩ name found evolves =>
    have same := alike.find? left.coherent.toIndexed right.coherent.toIndexed name
    ⟨alike.replace left.coherent.toIndexed right.coherent.toIndexed found
      (evolves.key.trans (left.coherent.key_of_find? found)) name,
      (Container.evolves_replace found evolves).sound left,
      (Container.evolves_replace (same.symm.trans found) evolves).sound right⟩
  ensure := fun ⟨alike, left, right⟩ name =>
    ⟨alike.ensure left.coherent.toIndexed right.coherent.toIndexed name,
      (Container.evolves_ensure _ _).sound left, (Container.evolves_ensure _ _).sound right⟩
  enter := fun ⟨alike, left, right⟩ name =>
    have entered := alike.enter left.coherent.toIndexed right.coherent.toIndexed name
    ⟨⟨entered.1, (Container.evolves_enter _ _).sound left,
      (Container.evolves_enter _ _).sound right⟩, entered.2⟩

/-- The declarations of one name, in their order. -/
def Ambient.Node.ofName (x : String) (declarations : List Node) : List Node :=
  declarations.filter (·.declaredName? == some x)

namespace Container

variable {c d : Container} {x : String}

/-- A declaration of the name does the same in packages that are alike under it. -/
theorem Alike.declare (alike : Alike x c d) (left : c.Sound) (right : d.Sound)
    (package : c.isPackage = true) {node : Node} (named : node.declaredName? = some x) :
    Alike x (c.declare node).container (d.declare node).container ∧
      (c.declare node).notes = (d.declare node).notes := by
  have done := (alikeUnder x).declare ⟨alike, left, right⟩ package
    (fun k opened => Option.some.inj
      ((Ambient.Node.declaredName?_of_opened opened).symm.trans named))
    (fun entry single y name => Option.some.inj
      ((Ambient.Node.declaredName?_of_single single name).symm.trans named))
  exact ⟨done.1.1, done.2⟩

/-- Leaving out the declarations of other names keeps packages alike under this one. -/
theorem Alike.declareAll (alike : Alike x c d) (left : c.Sound) (right : d.Sound)
    (package : c.isPackage = true) (nodes : List Node) :
    Alike x (c.declareAll nodes).container (d.declareAll (Node.ofName x nodes)).container ∧
      (d.declareAll (Node.ofName x nodes)).notes.Sublist (c.declareAll nodes).notes := by
  induction nodes generalizing c d with
  | nil => exact ⟨alike, .refl _⟩
  | cons node nodes ih =>
    have package' := alike.isPackage.symm.trans package
    have evolves := evolves_declare c node
    have sound := evolves.sound left
    have package₁ := evolves.isPackage.trans package
    rw [declareAll_cons left package]
    by_cases named : node.declaredName? = some x
    · have kept : Node.ofName x (node :: nodes) = node :: Node.ofName x nodes := by
        simp only [Node.ofName, List.filter_cons, named, beq_self_eq_true, ↓reduceIte]
      obtain ⟨alike₁, notes⟩ := alike.declare left right package named
      obtain ⟨alike₂, rest⟩ := ih alike₁ sound ((evolves_declare d node).sound right) package₁
      rw [kept, declareAll_cons right package']
      simp only [notes]
      exact ⟨alike₂, rest.append_left _⟩
    · have dropped : Node.ofName x (node :: nodes) = Node.ofName x nodes := by
        simp [Node.ofName, named]
      obtain ⟨alike₂, rest⟩ :=
        ih ((alike_declare_of_ne left package named).trans alike) sound right package₁
      rw [dropped]
      exact ⟨alike₂, rest.trans (List.sublist_append_right _ _)⟩

end Container

/-- What an import shows under a name at the top is the work of the declarations of that name
alone, and these call for the same notes whatever stands between them. -/
theorem named_importTree (declarations : List Node) (x : String) :
    let whole := importTree declarations
    let alone := importTree (Node.ofName x declarations)
    whole.fault = none ∧ alone.fault = none ∧
      whole.container.named x = alone.container.named x ∧ alone.notes.Sublist whole.notes := by
  have sound := Container.sound_root
  obtain ⟨alike, notes⟩ := (Container.Alike.refl x Container.root).declareAll sound sound rfl
    declarations
  exact ⟨fault_importTree _, fault_importTree _, alike.named, notes⟩

end Facade
