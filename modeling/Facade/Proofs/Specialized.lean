import Facade.Proofs.Balance
import Facade.Proofs.Explicit

/-! Signatures that are specialized on constants. The host language has no type for such a
parameter, and so no method is made of such a signature, wherever it is declared. Each of them is
noted. -/
namespace Facade
open Ambient (Node Signature)

/-! ## Callables -/

namespace Ambient

/-- A member that is declared with a signature. -/
def Node.isCallable : Node → Bool
  | .callMember _ | .constructorMember _ | .functionMember _ _ _ => true
  | _ => false

mutual

/-- The functions in a declaration and the members with a signature in the bodies that are
imported. -/
def Node.callables : Node → List Node
  | .moduleDecl _ members => callablesOf members
  | .varDecl _ (some (.objectType members)) => members.filter (·.isCallable)
  | .typeDecl _ (.objectType members) => members.filter (·.isCallable)
  | .interfaceDecl _ _ _ members => members.filter (·.isCallable)
  | .functionDecl name s => [.functionDecl name s]
  | _ => []

def callablesOf : List Node → List Node
  | [] => []
  | node :: nodes => node.callables ++ callablesOf nodes

end

def Node.signature? : Node → Option Signature
  | .callMember s | .constructorMember s | .functionMember _ _ s | .functionDecl _ s => some s
  | _ => none

/-- A callable with a parameter of a constant type. -/
def Node.isSpecialized (node : Node) : Bool := node.signature?.any (·.isSpecialized)

theorem callables_subset {node : Node} {nodes : List Node} (listed : node ∈ nodes) :
    node.callables ⊆ callablesOf nodes := by
  induction nodes with
  | nil => contradiction
  | cons first nodes ih =>
    intro callable member
    rcases List.mem_cons.mp listed with rfl | later
    · exact List.mem_append_left _ member
    · exact List.mem_append_right _ (ih later member)

end Ambient

open Ambient (callablesOf callables_subset)

/-! ## What callables become -/

/-- The method that a callable is made into. A constructor takes no more than its parameters to the
class. -/
inductive Ambient.Node.Makes : Node → Method → Prop where
  | call (s : Signature) : Makes (.callMember s) (s.method Method.applyName)
  | function (name : String) (optional : Bool) (s : Signature) :
      Makes (.functionMember name optional s) (s.method (escapeApply name))
  | declared (name : String) (s : Signature) : Makes (.functionDecl name s) (s.method name)
  | constructor (s : Signature) : Makes (.constructorMember s)
      (Signature.method ⟨[], s.params, some (.core "void")⟩ Method.constructorName)

/-- Every method is an accessor or made of one of these callables, which is not specialized. -/
def Charter.madeFrom (callables : List Node) : Charter where
  parent _ := True
  typeParam _ := True
  field _ _ _ := True
  method _ m := m.bracket = true ∨
    ∃ callable ∈ callables, callable.isSpecialized = false ∧ callable.Makes m
  field_grows _ := id
  method_grows _ := id

namespace Charter

variable {callables : List Node} {callable node : Node} {head : Head} {s : Signature}

theorem madeFrom_entry {name : String} (listed : callable ∈ callables)
    (same : callable.isSpecialized = s.isSpecialized) (makes : callable.Makes (s.method name)) :
    (madeFrom callables).Admits head (s.entry name) := by
  rw [Signature.entry_eq]
  split
  · trivial
  · next general => exact .inr ⟨callable, listed, same.trans (Bool.eq_false_iff.mpr general), makes⟩

theorem madeFrom_member (kind : Kind) (listed : node.isCallable = true → node ∈ callables) :
    (madeFrom callables).AdmitsMember kind node where
  entries entry member head _ := by
    cases Node.brings_of_mem member with
    | call s => exact madeFrom_entry (listed rfl) rfl (.call s)
    | function name optional s => exact madeFrom_entry (listed rfl) rfl (.function name optional s)
    | accessor brought =>
      simp only [Ambient.accessors, List.mem_cons, List.not_mem_nil, or_false] at brought
      rcases brought with rfl | rfl <;> exact .inl rfl
    | property | placeholder => trivial
  constructor s same _ _ := madeFrom_entry (same ▸ listed (same ▸ rfl)) rfl (.constructor s)

/-- The callables of all declarations are all that methods are made of. -/
theorem madeFrom_covers (callables : List Node) :
    (madeFrom callables).Covers (·.callables ⊆ callables) where
  package fit node listed := List.Subset.trans (callables_subset listed) fit
  single fit found head _ := by
    cases Node.stands_of_single found with
    | function name s => exact madeFrom_entry (fit (.head _)) rfl (.declared name s)
    | typed | untyped | placeholder => trivial
  object fit node listed := madeFrom_member _ fun callable =>
    fit (List.mem_filter.mpr ⟨listed, callable⟩)
  record fit node listed := madeFrom_member _ fun callable =>
    fit (List.mem_filter.mpr ⟨listed, callable⟩)
  interface fit := ⟨fun _ _ => trivial, fun _ _ => trivial, fun node listed =>
    madeFrom_member _ fun callable => fit (List.mem_filter.mpr ⟨listed, callable⟩)⟩

end Charter

/-- No method of a tree is made of a specialized signature. -/
theorem exists_makes_importTree {declarations : List Node} {c : Container}
    (inside : c.Inside (importTree declarations).container) {m : Method}
    (member : .method m ∈ c.members) :
    m.bracket = true ∨
      ∃ callable ∈ callablesOf declarations, callable.isSpecialized = false ∧ callable.Makes m :=
  (obeys_importTree (Charter.madeFrom_covers _) (fun _ => callables_subset) c inside).members _
    member

/-! ## What is noted -/

namespace Ambient.Node

/-- What a note says of a specialized callable: the signature was dropped, or a constructor that did
not go to any class was left as a placeholder. -/
inductive Notes : Node → Note → Prop where
  | call (s : Signature) (owner : String) :
      Notes (.callMember s) (.specialized Method.applyName owner)
  | function (name : String) (optional : Bool) (s : Signature) (owner : String) :
      Notes (.functionMember name optional s) (.specialized (escapeApply name) owner)
  | declared (name : String) (s : Signature) (owner : String) :
      Notes (.functionDecl name s) (.specialized name owner)
  | constructor (s : Signature) (owner : String) :
      Notes (.constructorMember s) (.specialized Method.constructorName owner)
  | left (s : Signature) (owner : String) :
      Notes (.constructorMember s) (.placeholder owner "ConstructorMember")

def NotedIn (node : Node) (notes : List Note) : Prop := ∃ note ∈ notes, node.Notes note

variable {node : Node} {first rest : List Note}

theorem NotedIn.append_left (noted : node.NotedIn first) : node.NotedIn (first ++ rest) := by
  obtain ⟨note, listed, tells⟩ := noted
  exact ⟨note, List.mem_append_left _ listed, tells⟩

theorem NotedIn.append_right (noted : node.NotedIn rest) : node.NotedIn (first ++ rest) := by
  obtain ⟨note, listed, tells⟩ := noted
  exact ⟨note, List.mem_append_right _ listed, tells⟩

end Ambient.Node

namespace Ambient.Signature

theorem entry_of_isSpecialized {s : Signature} (specialized : s.isSpecialized = true)
    (name : String) : s.entry name = .specialized name := by
  rw [entry_eq, if_pos specialized]

theorem constructorEntry_of_isSpecialized {s : Signature} (specialized : s.isSpecialized = true) :
    s.constructorEntry = .specialized Method.constructorName :=
  entry_of_isSpecialized (s := ⟨[], s.params, some (.core "void")⟩) specialized _

end Ambient.Signature

namespace Walk

variable {w v : Walk} {k : Key} {owner : Container} {callable : Node}

/-- A walk goes on, and among its further notes is one on the callable. -/
def Notes (w v : Walk) (callable : Node) : Prop :=
  ∃ notes, callable.NotedIn notes ∧ v.notes = w.notes ++ notes

theorem notes_enterAt {entry : Entry} (found : w.tree.find? k = some owner)
    (noted : callable.NotedIn (owner.enter entry).notes) :
    w.Notes (w.enterAt [k] [entry]) callable := by
  rw [enterAt_key found]
  refine ⟨_, ?_, rfl⟩
  simpa only [Container.enterAll, List.append_nil] using noted

theorem notes_promote (sound : w.tree.Sound) {s : Signature} (specialized : s.isSpecialized = true)
    (name : String) : w.Notes (w.promote [] name s) (.constructorMember s) := by
  obtain ⟨d, found⟩ := sound.coherent.exists_find?_openClass name
  rw [promote_nil, s.constructorEntry_of_isSpecialized specialized]
  exact notes_enterAt (w := { w with tree := w.tree.openClass name }) found
    ⟨_, .head _, .constructor s _⟩

theorem notes_constructor (sound : w.tree.Sound) (found : w.tree.find? k = some owner)
    {s : Signature} (specialized : s.isSpecialized = true) :
    w.Notes (w.constructor ⟨[], [k]⟩ s) (.constructorMember s) := by
  obtain ⟨_, name, companion, _, _, promoted⟩ | ⟨companion, left⟩ :=
    constructor_cases w ⟨[], [k]⟩ s
  · rw [promoted]
    exact notes_promote (w := { w with companion }) sound specialized name
  · rw [left]
    exact notes_enterAt (w := { w with companion }) found ⟨_, .head _, .left s _⟩

theorem notes_member (sound : w.tree.Sound) (found : w.tree.find? k = some owner)
    (member : callable.isCallable = true) (specialized : callable.isSpecialized = true) :
    w.Notes (w.member ⟨[], [k]⟩ callable) callable := by
  cases callable with
  | callMember s =>
    change w.Notes (w.enterAt [k] [s.entry _]) _
    rw [s.entry_of_isSpecialized specialized]
    exact notes_enterAt found ⟨_, .head _, .call s _⟩
  | functionMember name optional s =>
    change w.Notes (w.enterAt [k] [s.entry _]) _
    rw [s.entry_of_isSpecialized specialized]
    exact notes_enterAt found ⟨_, .head _, .function name optional s _⟩
  | constructorMember s => exact notes_constructor sound found specialized
  | _ => contradiction

theorem notes_members (sound : w.tree.Sound) (found : w.tree.find? k = some owner)
    {nodes : List Node} (listed : callable ∈ nodes.filter (·.isCallable))
    (specialized : callable.isSpecialized = true) :
    w.Notes (w.members ⟨[], [k]⟩ nodes) callable := by
  obtain ⟨there, member⟩ := List.mem_filter.mp listed
  clear listed
  induction nodes generalizing w owner with
  | nil => contradiction
  | cons node nodes ih =>
    have evolves := evolves_member w ⟨[], [k]⟩ node
    obtain ⟨owner', found'⟩ := evolves.find? sound found
    rcases List.mem_cons.mp there with rfl | later
    · obtain ⟨notes, noted, first⟩ := notes_member sound found member specialized
      obtain ⟨more, rest, _⟩ := accounts_members (evolves.sound sound) found' nodes
      refine ⟨notes ++ more, noted.append_left, ?_⟩
      exact rest.trans (by rw [first, List.append_assoc])
    · obtain ⟨notes, first, _⟩ := accounts_member sound found node
      obtain ⟨more, noted, rest⟩ := ih (evolves.sound sound) found' later
      refine ⟨notes ++ more, noted.append_right, ?_⟩
      exact rest.trans (by rw [first, List.append_assoc])

end Walk

namespace Container

variable {c : Container} {k : Key} {members : List Node} {callable : Node}

theorem notedIn_walkBody {owner : Container} (sound : c.Sound) (found : c.find? k = some owner)
    (listed : callable ∈ members.filter (·.isCallable))
    (specialized : callable.isSpecialized = true) :
    callable.NotedIn (c.walkBody ⟨[], [k]⟩ members).notes := by
  obtain ⟨notes, noted, same⟩ :=
    Walk.notes_members (w := { tree := c }) sound found listed specialized
  have whole : (c.walkBody ⟨[], [k]⟩ members).notes = notes := same.trans (List.nil_append _)
  rwa [whole]

theorem notedIn_fill (sound : c.Sound) (k : Key) (listed : callable ∈ members.filter (·.isCallable))
    (specialized : callable.isSpecialized = true) : callable.NotedIn (c.fill k members).notes := by
  obtain ⟨owner, found, _⟩ := sound.coherent.exists_find?_ensure k
  exact notedIn_walkBody (sound.ensure k) found listed specialized

theorem notedIn_declare_flat (sound : c.Sound) {node : Node} (listed : callable ∈ node.callables)
    (specialized : callable.isSpecialized = true)
    (flat : ∀ name members, node ≠ .moduleDecl name members) :
    callable.NotedIn (c.declare node).notes := by
  cases node with
  | moduleDecl name members => exact absurd rfl (flat name members)
  | varDecl name type =>
    cases type with
    | none => contradiction
    | some type =>
      cases type with
      | objectType members => exact notedIn_fill sound ⟨.object, name⟩ listed specialized
      | _ => contradiction
  | typeDecl name type =>
    cases type with
    | objectType members => exact notedIn_fill sound ⟨.classOrTrait, name.text⟩ listed specialized
    | _ => contradiction
  | interfaceDecl name typeParams parents members =>
    let params := typeParams.map TypeParam.ofAmbient
    obtain ⟨owner, found⟩ :=
      sound.coherent.exists_find?_extendClass name.text params (hostTypes parents)
    simp only [declare, declareInterface_eq]
    exact notedIn_walkBody ((evolves_extendClass c _ _ _).sound sound) found listed specialized
  | functionDecl name s =>
    obtain rfl := List.mem_singleton.mp listed
    have entry := s.entry_of_isSpecialized specialized name
    simp only [declare, entry, enter]
    exact ⟨_, .head _, .declared name s _⟩
  | _ => contradiction

mutual

theorem notedIn_declare {c : Container} (sound : c.Sound) (package : c.isPackage = true)
    (node : Node) (listed : callable ∈ node.callables)
    (specialized : callable.isSpecialized = true) : callable.NotedIn (c.declare node).notes := by
  cases node with
  | moduleDecl name members =>
    obtain ⟨inner, found, innerSound, innerPackage⟩ := sound.exists_opened name
    simp only [declare, package, found, ↓reduceIte]
    exact notedIn_declareAll innerSound innerPackage members listed specialized
  | _ => exact notedIn_declare_flat sound listed specialized nofun

theorem notedIn_declareAll {c : Container} (sound : c.Sound) (package : c.isPackage = true)
    (nodes : List Node) (listed : callable ∈ callablesOf nodes)
    (specialized : callable.isSpecialized = true) :
    callable.NotedIn (c.declareAll nodes).notes := by
  cases nodes with
  | nil => contradiction
  | cons node nodes =>
    have evolves := evolves_declare c node
    rw [declareAll_cons sound package]
    rcases List.mem_append.mp listed with here | later
    · exact (notedIn_declare sound package node here specialized).append_left
    · exact (notedIn_declareAll (evolves.sound sound) (evolves.isPackage.trans package) nodes later
        specialized).append_right

end

end Container

end Facade
