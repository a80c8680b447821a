import Facade.Import
import Facade.Proofs.Nesting

/-! Nothing is lost without a trace. Whatever a declaration or a member contains ends up as a
symbol of the tree or as a note, and every comment of the tree comes with a note of its own. -/
namespace Facade
open Ambient (Node Signature)

/-! ## The items of the input -/

def Ambient.Node.memberItems : Node → Nat
  | .propertyMember name _ _ => if name == "prototype" then 0 else 1
  | .indexMember _ _ _ => 2
  | _ => 1

def bodyItems : List Node → Nat
  | [] => 0
  | member :: members => member.memberItems + bodyItems members

mutual

/-- A declaration with a body contains the items of that body, any other is one item. -/
def Ambient.Node.items : Node → Nat
  | .moduleDecl _ members => itemsOf members
  | .varDecl _ (some (.objectType members)) => bodyItems members
  | .typeDecl _ (.objectType members) => bodyItems members
  | .interfaceDecl _ _ _ members => bodyItems members
  | _ => 1

def itemsOf : List Node → Nat
  | [] => 0
  | node :: nodes => node.items + itemsOf nodes

end

/-! ## The symbols of the output -/

mutual

/-- The fields, methods and comments at any depth. -/
def Symbol.leaves : Symbol → List Symbol
  | .container c => c.leaves
  | s => [s]

def Container.leaves : Container → List Symbol
  | ⟨_, members, _, _⟩ => leavesOf members

def leavesOf : List Symbol → List Symbol
  | [] => []
  | s :: rest => s.leaves ++ leavesOf rest

end

def Symbol.isComment : Symbol → Bool
  | .comment _ => true
  | _ => false

def Container.comments (c : Container) : Nat := c.leaves.countP (·.isComment)

def Note.isPlaceholder (n : Note) : Bool := n.text.startsWith "Left a placeholder in "

def placeholders (notes : List Note) : Nat := notes.countP (·.isPlaceholder)

theorem startsWith_append {s t : String} : (s ++ t).startsWith s = true := by
  rw [String.startsWith_string_iff, String.toList_append]
  exact List.prefix_append _ _

theorem not_startsWith_append {s t u : String} (filled : s.toList ≠ []) (begun : t.toList ≠ [])
    (differ : s.toList.head? ≠ t.toList.head?) : (t ++ u).startsWith s = false := by
  rw [String.startsWith_string_eq_false_iff, String.toList_append]
  cases first : s.toList <;> cases second : t.toList <;> simp_all

@[simp] theorem isPlaceholder_placeholder (owner kind : String) :
    (Note.placeholder owner kind).isPlaceholder = true := by
  unfold Note.isPlaceholder Note.text
  simp only [String.append_assoc]
  exact startsWith_append

@[simp] theorem isPlaceholder_specialized (name owner : String) :
    (Note.specialized name owner).isPlaceholder = false := by
  unfold Note.isPlaceholder Note.text
  simp only [String.append_assoc]
  exact not_startsWith_append (by decide) (by decide) (by decide)

@[simp] theorem isPlaceholder_collapsed (name owner : String) :
    (Note.collapsed name owner).isPlaceholder = false := by
  unfold Note.isPlaceholder Note.text
  simp only [String.append_assoc]
  exact not_startsWith_append (by decide) (by decide) (by decide)

@[simp] theorem isPlaceholder_secondField (name owner : String) :
    (Note.secondField name owner).isPlaceholder = false := by
  unfold Note.isPlaceholder Note.text
  simp only [String.append_assoc]
  exact not_startsWith_append (by decide) (by decide) (by decide)

theorem leavesOf_append (first second : List Symbol) :
    leavesOf (first ++ second) = leavesOf first ++ leavesOf second := by
  induction first with
  | nil => rfl
  | cons s first ih => simp only [List.cons_append, leavesOf, ih, List.append_assoc]

namespace Container

variable {c d new old : Container} {k : Key}

theorem leaves_eq (c : Container) : c.leaves = leavesOf c.members := by
  cases c
  rfl

theorem leaves_concat {s : Symbol} (members : d.members = c.members ++ [s]) :
    d.leaves = c.leaves ++ s.leaves := by
  simp only [leaves_eq, members, leavesOf_append, leavesOf, List.append_nil]

theorem countP_leaves_replace (found : c.find? k = some old) (new : Container)
    (p : Symbol → Bool) :
    (c.replace k new).leaves.countP p + old.leaves.countP p =
      c.leaves.countP p + new.leaves.countP p := by
  obtain ⟨i, placed, here⟩ := exists_of_find? found
  obtain ⟨bound, same⟩ := List.getElem?_eq_some_iff.mp here
  have split : c.members = c.members.take i ++ .container old :: c.members.drop (i + 1) := by
    rw [← same, ← List.drop_eq_getElem_cons bound, List.take_append_drop]
  have after : (c.replace k new).members =
      c.members.take i ++ .container new :: c.members.drop (i + 1) := by
    rw [replace_of_place? placed, List.set_eq_take_append_cons_drop, if_pos bound]
  have before := congrArg leavesOf split
  simp only [leaves_eq (c.replace k new), leaves_eq c, after, before, leavesOf_append, leavesOf,
    Symbol.leaves, List.countP_append]
  omega

/-- The leaves are the same, up to where they stand. -/
def Quiet (c d : Container) : Prop := ∀ p : Symbol → Bool, d.leaves.countP p = c.leaves.countP p

theorem quiet_of_members (members : d.members = c.members) : c.Quiet d := by
  intro p
  rw [leaves_eq, leaves_eq, members]

theorem quiet_modifyClass (c : Container) (f : ClassHead → ClassHead) :
    c.Quiet (modifyClass f c) := by
  apply quiet_of_members
  unfold modifyClass
  split <;> rfl

theorem quiet_replace (found : c.find? k = some old) (inner : old.Quiet new) :
    c.Quiet (c.replace k new) := by
  intro p
  have moved := countP_leaves_replace found new p
  have same := inner p
  omega

theorem quiet_modify (c : Container) (k : Key) {f : Container → Container}
    (inner : ∀ d : Container, d.Quiet (f d)) : c.Quiet (c.modify k f) := by
  cases found : c.find? k with
  | none => rw [modify_of_absent found]; exact fun _ => rfl
  | some d => rw [modify_of_find? found]; exact quiet_replace found (inner d)

theorem quiet_create (c : Container) (k : Key) : c.Quiet (c.create k) := by
  intro p
  have empty : (Symbol.container (fresh k)).leaves = [] := rfl
  rw [leaves_concat (d := c.create k) rfl, empty, List.append_nil]

theorem Quiet.trans {e : Container} (first : c.Quiet d) (second : d.Quiet e) : c.Quiet e :=
  fun p => (second p).trans (first p)

theorem quiet_linkTo (c : Container) (k : Key) : c.Quiet (linkTo k c) := quiet_of_members rfl

theorem quiet_ensure (c : Container) (k : Key) : c.Quiet (c.ensure k) := by
  cases placed : c.place? k with
  | some i =>
    rw [ensure_of_place? placed]
    exact fun _ => rfl
  | none =>
    cases met : c.partner? k with
    | none =>
      rw [ensure_alone placed met]
      exact quiet_create c k
    | some j =>
      rw [ensure_linked placed met]
      exact (quiet_create c k).trans ((quiet_modify _ _ (quiet_linkTo · _)).trans
        (quiet_modify _ _ (quiet_linkTo · _)))

/-- A change to a container accounts for a number of items: each became a symbol or a note,
and a comment came with a note on its placeholder. -/
structure Accounts (items : Nat) (before : Container) (after : Edit) : Prop where
  total : after.container.leaves.length + after.notes.length + before.comments =
    before.leaves.length + items + after.container.comments
  marked : placeholders after.notes + before.comments = after.container.comments

theorem Accounts.quiet (quiet : c.Quiet d) : Accounts 0 c ⟨d, []⟩ where
  total := by
    have length := quiet fun _ => true
    have comments := quiet (·.isComment)
    simp only [List.countP_true] at length
    simp only [Container.comments, List.length_nil, length, comments]
  marked := by
    have comments := quiet (·.isComment)
    simp only [Container.comments, placeholders, List.countP_nil, comments]
    omega

theorem Accounts.trans {m n : Nat} {e f : Edit} (first : Accounts m c e)
    (second : Accounts n e.container f) : Accounts (m + n) c ⟨f.container, e.notes ++ f.notes⟩ where
  total := by
    have before := first.total
    have after := second.total
    simp only [List.length_append]
    omega
  marked := by
    have before := first.marked
    have after := second.marked
    simp only [placeholders, List.countP_append] at before after ⊢
    omega

theorem Accounts.replace {n : Nat} {e : Edit} (found : c.find? k = some old)
    (inner : Accounts n old e) : Accounts n c ⟨c.replace k e.container, e.notes⟩ where
  total := by
    have length := countP_leaves_replace found e.container fun _ => true
    have comments := countP_leaves_replace found e.container (·.isComment)
    have total := inner.total
    simp only [List.countP_true] at length
    simp only [Container.comments] at total ⊢
    omega
  marked := by
    have comments := countP_leaves_replace found e.container (·.isComment)
    have marked := inner.marked
    simp only [Container.comments] at marked ⊢
    omega

theorem Accounts.put {n : Nat} {e : Edit} {path : Path} (found : c.get? path = some old)
    (inner : Accounts n old e) : Accounts n c ⟨c.put e.container path, e.notes⟩ := by
  induction path generalizing c with
  | nil =>
    obtain rfl := Option.some.inj found
    exact inner
  | cons k path ih =>
    obtain ⟨d, here, below⟩ := Option.bind_eq_some_iff.mp found
    simp only [Container.put, modify_of_find? here]
    exact (ih below).replace here

theorem accounts_kept {s : Symbol} (members : d.members = c.members ++ [s])
    (alone : s.leaves = [s]) (plain : s.isComment = false) : Accounts 1 c ⟨d, []⟩ where
  total := by simp [Container.comments, leaves_concat members, alone, plain]
  marked := by simp [Container.comments, leaves_concat members, alone, plain, placeholders]

theorem accounts_noted (c : Container) {n : Note} (plain : n.isPlaceholder = false) :
    Accounts 1 c ⟨c, [n]⟩ where
  total := by simp only [List.length_singleton]
  marked := by simp [placeholders, plain]

theorem accounts_placeholder (c : Container) (text owner kind : String) :
    Accounts 1 c ⟨c.addComment text, [.placeholder owner kind]⟩ where
  total := by
    simp [Container.comments, leaves_concat (d := c.addComment text) rfl, Symbol.leaves,
      Symbol.isComment]
    omega
  marked := by
    simp [Container.comments, leaves_concat (d := c.addComment text) rfl, Symbol.leaves,
      Symbol.isComment, placeholders]
    omega

theorem accounts_enter (c : Container) (entry : Entry) : Accounts 1 c (c.enter entry) := by
  cases entry with
  | field name type =>
    rw [enter_field]
    split
    · exact accounts_noted c (isPlaceholder_secondField _ _)
    · exact accounts_kept (d := c.addField name type) rfl rfl rfl
  | method m =>
    rw [enter_method]
    split
    · exact accounts_noted c (isPlaceholder_collapsed _ _)
    · exact accounts_kept (d := c.addMethod m) rfl rfl rfl
  | specialized name => exact accounts_noted c (isPlaceholder_specialized _ _)
  | placeholder node => exact accounts_placeholder c _ _ _

theorem accounts_enterAll (c : Container) (entries : List Entry) :
    Accounts entries.length c (c.enterAll entries) := by
  induction entries generalizing c with
  | nil => exact .quiet fun _ => rfl
  | cons entry entries ih =>
    rw [List.length_cons, Nat.add_comm]
    exact (accounts_enter c entry).trans (ih _)

end Container

namespace Walk
open Container (Accounts)

def Accounts (items : Nat) (before after : Walk) : Prop :=
  ∃ notes, after.notes = before.notes ++ notes ∧
    Container.Accounts items before.tree ⟨after.tree, notes⟩

variable {w : Walk} {k : Key} {owner : Container}

theorem accounts_enterAt {path : Path} (found : w.tree.get? path = some owner)
    (entries : List Entry) : Accounts entries.length w (w.enterAt path entries) := by
  refine ⟨(owner.enterAll entries).notes, ?_, ?_⟩
  · simp only [enterAt, found]
  · simp only [enterAt, found]
    exact (Container.accounts_enterAll owner entries).put found

theorem Accounts.trans {m n : Nat} {w' w'' : Walk} (first : Accounts m w w')
    (second : Accounts n w' w'') : Accounts (m + n) w w'' := by
  obtain ⟨before, kept, accounts⟩ := first
  obtain ⟨after, kept', accounts'⟩ := second
  exact ⟨before ++ after, by rw [kept', kept, List.append_assoc], accounts.trans accounts'⟩

theorem accounts_promote (sound : w.tree.Sound) (name : String) (signature : Signature) :
    Accounts 1 w (w.promote [] name signature) := by
  obtain ⟨d, found⟩ := sound.coherent.exists_find?_openClass name
  have quiet : w.tree.Quiet (w.tree.openClass name) := (w.tree.quiet_ensure _).trans
    (Container.quiet_modify _ _ (Container.quiet_modifyClass · _))
  let opened : Walk := { w with tree := w.tree.openClass name }
  have first : Accounts 0 w opened := ⟨[], (List.append_nil _).symm, .quiet quiet⟩
  have second := accounts_enterAt (w := opened) ((Container.get?_key _ _).trans found)
    [signature.constructorEntry]
  rw [promote_nil]
  exact first.trans second

theorem accounts_constructor (sound : w.tree.Sound) (found : w.tree.find? k = some owner)
    (signature : Signature) : Accounts 1 w (w.constructor ⟨[], [k]⟩ signature) := by
  have placed := (Container.get?_key w.tree k).trans found
  obtain ⟨_, name, companion, _, _, promoted⟩ | ⟨companion, left⟩ :=
    constructor_cases w ⟨[], [k]⟩ signature
  · rw [promoted]
    exact accounts_promote (w := { w with companion }) sound name signature
  · rw [left]
    exact accounts_enterAt (w := { w with companion }) placed [_]

theorem length_entries (node : Node) (plain : ∀ signature, node ≠ .constructorMember signature) :
    node.entries.length = node.memberItems := by
  cases node with
  | propertyMember name optional type =>
    simp only [Node.entries, Node.memberItems]
    split <;> rfl
  | constructorMember signature => exact absurd rfl (plain signature)
  | _ => rfl

theorem accounts_member (sound : w.tree.Sound) (found : w.tree.find? k = some owner)
    (node : Node) : Accounts node.memberItems w (w.member ⟨[], [k]⟩ node) := by
  unfold member
  split
  · exact accounts_constructor sound found _
  · next plain =>
    rw [← length_entries node plain]
    exact accounts_enterAt ((Container.get?_key w.tree k).trans found) node.entries

theorem accounts_members (sound : w.tree.Sound) (found : w.tree.find? k = some owner)
    (nodes : List Node) : Accounts (bodyItems nodes) w (w.members ⟨[], [k]⟩ nodes) := by
  induction nodes generalizing w owner with
  | nil => exact ⟨[], (List.append_nil _).symm, .quiet fun _ => rfl⟩
  | cons node nodes ih =>
    have evolves := evolves_member w ⟨[], [k]⟩ node
    obtain ⟨owner', found'⟩ := evolves.find? sound found
    exact (accounts_member sound found node).trans (ih (evolves.sound sound) found')

end Walk

namespace Container

variable {c d : Container} {k : Key}

theorem accounts_walkBody {owner : Container} (sound : c.Sound) (found : c.find? k = some owner)
    (nodes : List Node) : Accounts (bodyItems nodes) c (c.walkBody ⟨[], [k]⟩ nodes) := by
  obtain ⟨notes, kept, accounts⟩ := Walk.accounts_members (w := { tree := c }) sound found nodes
  simp only [List.nil_append] at kept
  subst kept
  exact accounts

theorem Accounts.after_quiet {n : Nat} {e : Edit} (quiet : c.Quiet d) (accounts : Accounts n d e) :
    Accounts n c e := by
  simpa only [Nat.zero_add, List.nil_append] using (Accounts.quiet quiet).trans accounts

theorem accounts_fill (sound : c.Sound) (k : Key) (members : List Node) :
    Accounts (bodyItems members) c (c.fill k members) := by
  obtain ⟨owner, found, _⟩ := sound.coherent.exists_find?_ensure k
  exact .after_quiet (c.quiet_ensure k)
    (accounts_walkBody ((evolves_ensure c k).sound sound) found members)

theorem accounts_declareInterface (sound : c.Sound) (name : String) (typeParams : List TypeParam)
    (parents : List HostType) (members : List Node) :
    Accounts (bodyItems members) c (c.declareInterface name typeParams parents members) := by
  obtain ⟨owner, found⟩ := sound.coherent.exists_find?_extendClass name typeParams parents
  have quiet : c.Quiet (c.extendClass name typeParams parents) := (c.quiet_ensure _).trans
    (quiet_modify _ _ fun found => (quiet_modifyClass found _).trans (quiet_modifyClass _ _))
  rw [declareInterface_eq]
  exact .after_quiet quiet
    (accounts_walkBody ((evolves_extendClass c name typeParams parents).sound sound) found members)

theorem items_single {node : Node} {entry : Entry} (single : node.single? = some entry) :
    node.items = 1 := by
  cases node with
  | varDecl name type =>
    cases type with
    | none => rfl
    | some type => cases type <;> first | rfl | contradiction
  | typeDecl name type => cases type <;> first | rfl | contradiction
  | moduleDecl name members | interfaceDecl name typeParams parents members => contradiction
  | _ => rfl

theorem accounts_declare_flat (sound : c.Sound) {node : Node}
    (flat : ∀ name members, node ≠ .moduleDecl name members) :
    Accounts node.items c (c.declare node).toEdit := by
  cases node.form with
  | package name members => exact absurd rfl (flat name members)
  | object name members => exact accounts_fill sound _ members
  | record name members => exact accounts_fill sound _ members
  | interface name typeParams parents members =>
    exact accounts_declareInterface sound _ _ _ members
  | single single =>
    rw [declare_single single, items_single single]
    exact accounts_enter c _

mutual

theorem accounts_declare {c : Container} (sound : c.Sound) (package : c.isPackage = true)
    (node : Node) : Accounts node.items c (c.declare node).toEdit := by
  cases node with
  | moduleDecl name members =>
    obtain ⟨inner, found, innerSound, innerPackage⟩ := sound.exists_opened name
    simp only [declare, package, found]
    exact .after_quiet (c.quiet_ensure _)
      ((accounts_declareAll innerSound innerPackage members).replace found)
  | _ => exact accounts_declare_flat sound nofun

theorem accounts_declareAll {c : Container} (sound : c.Sound) (package : c.isPackage = true)
    (nodes : List Node) : Accounts (itemsOf nodes) c (c.declareAll nodes).toEdit := by
  cases nodes with
  | nil => exact .quiet fun _ => rfl
  | cons node nodes =>
    have evolves := evolves_declare c node
    rw [declareAll_cons sound package]
    exact (accounts_declare sound package node).trans
      (accounts_declareAll (evolves.sound sound) (evolves.isPackage.trans package) nodes)

end

end Container

/-- An import completes, and each item of its input is a symbol of the tree or a note. -/
theorem nothing_lost (verbose : Bool) (declarations : List Node) :
    let imported := importReported verbose declarations
    let tree := imported.outcome.container
    let notes := imported.report.notes
    imported.outcome.fault = none ∧
      (tree.leaves.length + notes.length - tree.comments : Int) = itemsOf declarations ∧
      placeholders notes = tree.comments := by
  intro imported tree notes
  have accounts := Container.accounts_declareAll Container.sound_root rfl declarations
  have kept : notes = (Container.root.declareAll declarations).notes :=
    notes_importReported verbose declarations
  have whole : tree = (Container.root.declareAll declarations).container := rfl
  have total := accounts.total
  have marked := accounts.marked
  have bare : Container.root.leaves.length = 0 := rfl
  have uncommented : Container.root.comments = 0 := rfl
  simp only [← kept, ← whole, bare, uncommented] at total marked
  exact ⟨fault_importTree declarations, by omega, marked⟩

end Facade
