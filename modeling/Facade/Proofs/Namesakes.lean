import Facade.Proofs.Accessors

/-! Which members displace one another. Names are escaped before they are compared, and the
escaped name of one member is the name of another: a member called `apply` and one called `$apply`
come to one name, so that the later of them is refused although its own name is not taken. All
other names are told apart. -/
namespace Facade
open Ambient (Node Signature TypeName)

/-! ## Names that meet -/

/-- What the members called `apply` are renamed to. -/
def escapedApply : String := "$apply"

/-- Two names that are the same once they are escaped. -/
inductive NamesMeet : String → String → Prop where
  | same (name : String) : NamesMeet name name
  | escaped : NamesMeet Method.applyName escapedApply
  | literal : NamesMeet escapedApply Method.applyName

theorem escapeApply_eq_iff {x y : String} : escapeApply y = escapeApply x ↔ NamesMeet y x := by
  constructor
  · intro same
    simp only [escapeApply, beq_iff_eq] at same
    split at same
    · next first =>
      split at same
      · next second => exact first.trans second.symm ▸ .same x
      · exact first ▸ same ▸ .escaped
    · split at same
      · next second => exact second ▸ same ▸ .literal
      · exact same ▸ .same y
  · rintro (_ | _ | _)
    · rfl
    · decide
    · decide

/-- Of the overload of a method only the name depends on what it is called. -/
theorem Ambient.Signature.overload_method_eq_iff {s t : Signature} {x y : String} (z : String) :
    (t.method y).overload = (s.method x).overload ↔
      y = x ∧ (t.method z).overload = (s.method z).overload := by
  simp [Method.overload, method]

/-! ## One more member in a body -/

/-- What is around the body in a declaration that has one. -/
inductive Shell where
  | object (name : String)
  | record (name : TypeName)
  | interface (name : TypeName) (typeParams : List Ambient.TypeParam) (parents : List Node)

namespace Shell

def around (members : List Node) : Shell → Node
  | object name => .varDecl name (some (.objectType members))
  | record name => .typeDecl name (.objectType members)
  | interface name typeParams parents => .interfaceDecl name typeParams parents members

def key : Shell → Key
  | object name => ⟨.object, name⟩
  | record name | interface name _ _ => ⟨.classOrTrait, name.text⟩

theorem kind_key (shell : Shell) : shell.key.kind ≠ .package := by
  cases shell <;> nofun

theorem bodyUnder_around (shell : Shell) (members : List Node) :
    (shell.around members).bodyUnder shell.key = members := by
  cases shell <;> exact if_pos rfl

theorem opened?_around (shell : Shell) (members : List Node) :
    (shell.around members).opened? = some shell.key := by
  cases shell <;> rfl

end Shell

/-- A declaration in the namespaces of a path. -/
def within (names : List String) (node : Node) : Node :=
  names.foldr (fun name inner => .moduleDecl name [inner]) node

namespace Container

variable {c d owner : Container} {k : Key}

theorem Sound.notes_declare_within (sound : c.Sound) (package : c.isPackage = true)
    (names : List String) (node : Node) :
    (c.declare (within names node)).notes = ((c.packageAt names).declare node).notes := by
  induction names generalizing c with
  | nil => rfl
  | cons name names ih =>
    obtain ⟨inner, found, _, done⟩ :=
      sound.declare_moduleDecl package name [within names node]
    rw [sound.coherent.find?_ensure_package rfl] at found
    obtain rfl := Option.some.inj found
    have inside := sound.getD_find? name
    have isPackage := sound.coherent.isPackage_getD_find? name
    rw [within, List.foldr_cons, ← within, done]
    dsimp only
    rw [declareAll_singleton inside isPackage, ih inside isPackage, packageAt]

/-- A body with one more member is walked as before, and then that member is visited. -/
theorem Sound.notes_declare_around (sound : c.Sound) (shell : Shell) (members : List Node)
    (node : Node) :
    let before := c.declare (shell.around members)
    (c.declare (shell.around (members ++ [node]))).notes =
      before.notes ++ (before.container.walkBody ⟨[], [shell.key]⟩ [node]).notes := by
  cases shell with
  | object name | record name =>
    simp only [Shell.around, declare, fill, (sound.ensure _).walkBody_append, Shell.key]
  | interface name typeParams parents =>
    have extended := (evolves_extendClass c name.text (typeParams.map .ofAmbient)
      (hostTypes parents)).sound sound
    simp only [Shell.around, declare, declareInterface_eq, extended.walkBody_append, Shell.key]

theorem notes_walkBody_single (found : c.find? k = some owner) {node : Node} {entry : Entry}
    (plain : ∀ s, node ≠ .constructorMember s) (single : node.entries = [entry]) :
    (c.walkBody ⟨[], [k]⟩ [node]).notes = (owner.enter entry).notes := by
  have entered : Walk.member { tree := c } ⟨[], [k]⟩ node =
      Walk.enterAt { tree := c } [k] [entry] := by
    rw [← single]
    cases node with
    | constructorMember s => exact absurd rfl (plain s)
    | _ => rfl
  unfold walkBody Walk.members
  rw [List.foldl_cons, List.foldl_nil, entered, Walk.enterAt_key found]
  simp only [enterAll, List.nil_append, List.append_nil]

/-! ## What is taken -/

variable {nodes : List Node} {parents : List HostType} {x : String} {s : Signature}

theorem Holds.hasField_iff (held : c.Holds (nodes.flatMap (·.entries)) parents)
    (indexed : c.Indexed) (declared : x ≠ "prototype") :
    c.hasField (escapeApply x) = true ↔
      ∃ y optional type, .propertyMember y optional type ∈ nodes ∧ NamesMeet y x := by
  rw [indexed.hasField_iff_mem_map, held.fields, mem_map_firstOfEach,
    Ambient.filterMap_field?_flatMap_entries, List.mem_map]
  constructor
  · rintro ⟨⟨name, type⟩, listed, same⟩
    obtain ⟨node, member, brought⟩ := List.mem_filterMap.mp listed
    cases node with
    | propertyMember y optional type =>
      simp only [Ambient.Node.field?, Option.ite_none_left_eq_some, Option.some.injEq,
        Prod.mk.injEq] at brought
      exact ⟨y, optional, type, member, escapeApply_eq_iff.mp (brought.2.1.trans same)⟩
    | _ => contradiction
  · rintro ⟨y, optional, type, member, meet⟩
    -- What meets a name that is kept is kept, too.
    have kept : y ≠ "prototype" := by
      cases meet with
      | same => exact declared
      | escaped | literal => decide
    refine ⟨(escapeApply y, type.hostType .inner), List.mem_filterMap.mpr ⟨_, member, ?_⟩,
      escapeApply_eq_iff.mpr meet⟩
    rw [Ambient.Node.field?, if_neg kept]

/-- The overload of a function is taken by a function whose name meets its own, and by nothing
else: calls and index accessors have names of their own. -/
theorem Holds.hasOverload_iff (held : c.Holds (nodes.flatMap (·.entries)) parents)
    (indexed : c.Indexed) (unreserved : x ≠ Method.constructorName) :
    c.hasOverload (s.method (escapeApply x)).overload = true ↔
      ∃ y optional t, .functionMember y optional t ∈ nodes ∧
        t.params.any (·.isConstant) = false ∧ NamesMeet y x ∧
        (t.method x).overload = (s.method x).overload := by
  have ordinary : ∀ t : Signature, (t.method (escapeApply x)).isOrdinary = true := fun t =>
    bne_iff_ne.mpr (escapeApply_ne_constructorName unreserved)
  rw [indexed.hasOverload_iff_mem_map (ordinary s), held.methods, mem_map_firstOfEach,
    Ambient.filterMap_ordinary?_flatMap_entries]
  simp only [List.mem_map, List.mem_filter, List.mem_flatMap]
  constructor
  · rintro ⟨m, ⟨⟨node, member, brought⟩, _⟩, same⟩
    have name : m.name = escapeApply x := congrArg Method.Overload.name same
    have plain : m.bracket = false := congrArg Method.Overload.bracket same
    cases node with
    | functionMember y optional t =>
      obtain ⟨general, rfl⟩ := Ambient.Signature.general?_eq_some.mp (Option.mem_toList.mp brought)
      obtain ⟨meet, shape⟩ := (Ambient.Signature.overload_method_eq_iff x).mp same
      exact ⟨y, optional, t, member, general, escapeApply_eq_iff.mp meet, shape⟩
    | callMember t =>
      obtain ⟨_, rfl⟩ := Ambient.Signature.general?_eq_some.mp (Option.mem_toList.mp brought)
      exact absurd name.symm (escapeApply_ne_applyName x)
    | indexMember y index value =>
      have bracket := (Ambient.isAccessor_of_mem brought).bracket
      rw [plain] at bracket
      contradiction
    | _ => contradiction
  · rintro ⟨y, optional, t, member, general, meet, shape⟩
    have brought : t.general? (escapeApply y) = some (t.method (escapeApply y)) :=
      Ambient.Signature.general?_eq_some.mpr ⟨general, rfl⟩
    have named := escapeApply_eq_iff.mpr meet
    refine ⟨t.method (escapeApply y), ⟨⟨_, member, Option.mem_toList.mpr brought⟩, ?_⟩,
      (Ambient.Signature.overload_method_eq_iff x).mpr ⟨named, shape⟩⟩
    rw [named]
    exact ordinary t

end Container

/-! ## Refusals -/

/-- The notes of an import that ends with a body in a namespace. -/
def notesOf (names : List String) (declarations : List Node) (shell : Shell) (body : List Node) :
    List Note :=
  (importTree (declarations ++ [within names (shell.around body)])).notes

section Refusals

variable (names : List String) (declarations : List Node) (shell : Shell) (members : List Node)

/-- When a body has one more member, that member comes to a container that holds what the earlier
bodies of its name and the members before it brought. -/
theorem exists_owner {node : Node} {entry : Entry} (plain : ∀ s, node ≠ .constructorMember s)
    (single : node.entries = [entry]) :
    ∃ (owner : Container) (parents : List HostType), owner.Indexed ∧
      owner.Holds ((bodiesUnder shell.key (declaredIn names declarations) ++ members).flatMap
        (·.entries)) parents ∧
      notesOf names declarations shell (members ++ [node]) =
        notesOf names declarations shell members ++ (owner.enter entry).notes := by
  have sound : (importTree declarations).container.Sound := sound_importTree declarations
  have package := isPackage_importTree declarations
  let p := (importTree declarations).container.packageAt names
  have inner : p.Sound := sound.of_packageAt names
  have isPackage : p.isPackage = true := sound.isPackage_packageAt package names
  -- Whatever the last body is, it is declared in the same package.
  have split : ∀ body, notesOf names declarations shell body =
      (importTree declarations).notes ++ (p.declare (shell.around body)).notes := by
    intro body
    rw [notesOf, importTree, Container.declareAll_append Container.sound_root rfl]
    dsimp only
    rw [← importTree, Container.declareAll_singleton sound package,
      sound.notes_declare_within package]
  have evolves := Container.evolves_declare p (shell.around members)
  obtain ⟨owner, found⟩ := inner.exists_find?_declare isPackage (shell.opened?_around members)
  have held := inner.holds_declare isPackage shell.kind_key
    (holds_packageAt_importTree names declarations shell.kind_key) (shell.around members)
  rw [shell.bodyUnder_around, ← List.flatMap_append, Container.childAt_of_find? found] at held
  refine ⟨owner, _, ((evolves.sound inner).find? found).coherent.toIndexed, held, ?_⟩
  rw [split, split, inner.notes_declare_around, Container.notes_walkBody_single found plain single,
    List.append_assoc]

end Refusals

/-- A property is refused as a second field exactly if the name of an earlier property of the same
container meets its own, and a function is refused as an overload of an earlier function exactly
if their names meet and they take the same. Two names meet if they are one, or if they are `apply`
and `$apply`. -/
theorem namesakes_importTree (names : List String) (declarations : List Node) (shell : Shell)
    (members : List Node) :
    let notes := notesOf names declarations shell
    let earlier := bodiesUnder shell.key (declaredIn names declarations) ++ members
    (∀ x optional type, x ≠ "prototype" → ∃ refused owner,
      notes (members ++ [.propertyMember x optional type]) =
        notes members ++ (if refused then [.secondField (escapeApply x) owner] else []) ∧
      (refused = true ↔
        ∃ y optional type, .propertyMember y optional type ∈ earlier ∧ NamesMeet y x)) ∧
    ∀ x optional s, x ≠ Method.constructorName → s.params.any (·.isConstant) = false →
      ∃ refused owner,
        notes (members ++ [.functionMember x optional s]) =
          notes members ++ (if refused then [.collapsed (escapeApply x) owner] else []) ∧
        (refused = true ↔
          ∃ y optional t, .functionMember y optional t ∈ earlier ∧
            t.params.any (·.isConstant) = false ∧ NamesMeet y x ∧
            (t.method x).overload = (s.method x).overload) := by
  intro notes earlier
  constructor
  · intro x optional type declared
    have single : (Node.propertyMember x optional type).entries =
        [.field (escapeApply x) (type.hostType .inner)] := if_neg (by simpa using declared)
    obtain ⟨owner, parents, indexed, held, added⟩ :=
      exists_owner names declarations shell members (fun _ => Node.noConfusion) single
    refine ⟨owner.hasField (escapeApply x), owner.title, added.trans ?_,
      held.hasField_iff indexed declared⟩
    rw [Container.enter_field]
    split <;> rfl
  · intro x optional s unreserved general
    have single : (Node.functionMember x optional s).entries =
        [.method (s.method (escapeApply x))] :=
      congrArg (fun entry => [entry]) (if_neg (Bool.eq_false_iff.mp general))
    obtain ⟨owner, parents, indexed, held, added⟩ :=
      exists_owner names declarations shell members (fun _ => Node.noConfusion) single
    refine ⟨owner.hasOverload (s.method (escapeApply x)).overload, owner.title, added.trans ?_,
      held.hasOverload_iff indexed unreserved⟩
    rw [Container.enter_method]
    split <;> rfl

/-- A namespace that is opened twice, with a piece of a trait in each. The later `$apply` meets the
earlier `apply`, another property meets none, and a function meets its like. -/
theorem namesakes_importTree_pieces :
    let property (name : String) : Node := .propertyMember name false (.core "number")
    let function (name : String) : Node := .functionMember name false ⟨[], [], none⟩
    let first : Node := .interfaceDecl (.plain "A") [] [] [property "apply", function "f"]
    let notes := notesOf ["js"] [.moduleDecl "js" [first]] (.record (.plain "A"))
    (∃ owner, notes ([function "g"] ++ [property "$apply"]) =
      notes [function "g"] ++ [.secondField "$apply" owner]) ∧
    notes ([function "g"] ++ [property "size"]) = notes [function "g"] ∧
    ∃ owner, notes ([function "g"] ++ [function "f"]) =
      notes [function "g"] ++ [.collapsed "f" owner] := by
  intro property function first notes
  obtain ⟨fields, functions⟩ := namesakes_importTree ["js"] [.moduleDecl "js" [first]]
    (.record (.plain "A")) [function "g"]
  refine ⟨?_, ?_, ?_⟩
  · obtain ⟨refused, owner, added, exactly⟩ := fields "$apply" false (.core "number") (by decide)
    rw [exactly.mpr ⟨"apply", false, .core "number", .head _, .escaped⟩] at added
    exact ⟨owner, added⟩
  · obtain ⟨refused, owner, added, exactly⟩ := fields "size" false (.core "number") (by decide)
    have kept : refused = false := by
      refine Bool.eq_false_iff.mpr fun taken => ?_
      obtain ⟨y, optional, type, member, meet⟩ := exactly.mp taken
      have listed : .propertyMember y optional type ∈
          [property "apply", function "f", function "g"] := member
      obtain ⟨rfl, rfl, rfl⟩ : y = "apply" ∧ optional = false ∧ type = .core "number" := by
        simpa [property, function] using listed
      exact absurd (escapeApply_eq_iff.mpr meet) (by decide)
    rw [kept] at added
    exact added.trans (List.append_nil _)
  · obtain ⟨refused, owner, added, exactly⟩ := functions "f" false ⟨[], [], none⟩ (by decide) rfl
    rw [exactly.mpr ⟨"f", false, ⟨[], [], none⟩, .tail _ (.head _), rfl, .same "f", rfl⟩] at added
    exact ⟨owner, added⟩

/-- A trait with two properties, and one with two functions. In each the second member is refused
although nothing before it has its name. -/
theorem displaced_importTree :
    let property (name : String) : Node := .propertyMember name false (.core "number")
    let function (name : String) : Node := .functionMember name false ⟨[], [], none⟩
    (importTree [.interfaceDecl (.plain "A") [] [] [property "apply", property "$apply"]]).notes =
      [.secondField "$apply" "trait A"] ∧
    (∀ optional type, .propertyMember "$apply" optional type ∉ [property "apply"]) ∧
    (importTree [.interfaceDecl (.plain "B") [] [] [function "apply", function "$apply"]]).notes =
      [.collapsed "$apply" "trait B"] ∧
    ∀ optional s, .functionMember "$apply" optional s ∉ [function "apply"] := by
  intro property function
  refine ⟨rfl, ?_, rfl, ?_⟩
  · intro optional type member
    have same := Node.propertyMember.inj (List.mem_singleton.mp member)
    exact absurd same.1 (by decide)
  · intro optional s member
    have same := Node.functionMember.inj (List.mem_singleton.mp member)
    exact absurd same.1 (by decide)

end Facade
