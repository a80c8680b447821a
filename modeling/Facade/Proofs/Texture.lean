import Facade.Proofs.Blocks
import Facade.Proofs.Overloads
import Facade.Proofs.Rendering

/-! What is true of a written line because it is true of its pieces. Names are written between
fixed marks, so that a line is broken only where a name is, and does not end like the first line of
a block whatever the names in it are. -/
namespace Facade
open Source (quoteName fieldLine commentLine objectLine)

/-! ## Texts made of names -/

/-- A property that a text has if it is made of fixed marks and of texts that have it. -/
structure Texture (T : String → Prop) : Prop where
  fixed : ∀ text : String, '\n' ∉ text.toList ∧ text.toList.getLast? ≠ some '\x7b' → T text
  append : ∀ {first second : String}, T first → T second → T (first ++ second)

/-- All of these words have a property where they are written as names. -/
def KeepsNames (T : String → Prop) (words : List String) : Prop :=
  ∀ word ∈ words, T (quoteName word)

/-- The names in a type have a property where they are written. -/
def HostType.KeepsNames (T : String → Prop) (type : HostType) : Prop :=
  ∀ q ∈ type.names, Facade.KeepsNames T q.parts

namespace Texture

variable {T : String → Prop}

theorem empty (texture : Texture T) : T "" := texture.fixed "" (by decide)

theorem intercalate (texture : Texture T) {separator : String} {texts : List String}
    (mark : T separator) (each : ∀ text ∈ texts, T text) : T (separator.intercalate texts) := by
  induction texts with
  | nil => exact texture.empty
  | cons text rest ih =>
    obtain ⟨first, others⟩ := List.forall_mem_cons.mp each
    cases rest with
    | nil => rwa [String.intercalate_singleton]
    | cons next rest =>
      rw [String.intercalate_cons_cons]
      exact texture.append (texture.append first mark) (ih others)

theorem bracketed (texture : Texture T) {texts : List String} (each : ∀ text ∈ texts, T text) :
    T (bracketed texts) := by
  cases texts with
  | nil => exact texture.empty
  | cons text rest =>
    have inside := texture.intercalate (texture.fixed ", " (by decide)) each
    exact texture.append (texture.append (texture.fixed "[" (by decide)) inside)
      (texture.fixed "]" (by decide))

theorem path (texture : Texture T) {parts : List String} (keeps : KeepsNames T parts) :
    T (".".intercalate (parts.map quoteName)) := by
  apply texture.intercalate (texture.fixed "." (by decide))
  intro text listed
  obtain ⟨part, member, rfl⟩ := List.mem_map.mp listed
  exact keeps part member

theorem qualifiedName (texture : Texture T) {q : QualifiedName} (keeps : KeepsNames T q.parts) :
    T q.written := by
  rw [QualifiedName.written_eq]
  apply texture.path
  intro part member
  rcases QualifiedName.mem_shortened member with rfl | there
  · exact texture.fixed "js" (by decide)
  · exact keeps part there

mutual

theorem type {T : String → Prop} (texture : Texture T) (t : HostType) (keeps : t.KeepsNames T)
    {text : String} (written : t.written = .ok text) : T text := by
  obtain ⟨name, args⟩ := t
  have inner : ∀ q ∈ namesOf args, KeepsNames T q.parts := fun q listed => keeps q (.tail _ listed)
  unfold HostType.written at written
  split at written
  · exact texture.element args inner written
  · obtain ⟨texts, made, rfl⟩ := map_eq_ok.mp written
    exact texture.append (texture.qualifiedName (keeps name (.head _)))
      (texture.bracketed (texture.types args inner made))

theorem element {T : String → Prop} (texture : Texture T) (args : List HostType)
    (keeps : ∀ q ∈ namesOf args, KeepsNames T q.parts) {text : String}
    (written : HostType.writtenElement args = .ok text) : T text := by
  cases args with
  | nil => contradiction
  | cons element others =>
    obtain ⟨inner, made, rfl⟩ := map_eq_ok.mp written
    have own := texture.type element (fun q listed => keeps q (List.mem_append_left _ listed)) made
    exact texture.append own (texture.fixed "*" (by decide))

theorem types {T : String → Prop} (texture : Texture T) (ts : List HostType)
    (keeps : ∀ q ∈ namesOf ts, KeepsNames T q.parts) {texts : List String}
    (written : HostType.writtenAll ts = .ok texts) : ∀ text ∈ texts, T text := by
  cases ts with
  | nil =>
    obtain rfl := Except.ok.inj written
    nofun
  | cons t ts =>
    obtain ⟨first, made, written⟩ := bind_eq_ok.mp written
    obtain ⟨rest, others, written⟩ := bind_eq_ok.mp written
    obtain rfl := Except.ok.inj written
    exact List.forall_mem_cons.mpr
      ⟨texture.type t (fun q listed => keeps q (List.mem_append_left _ listed)) made,
        texture.types ts (fun q listed => keeps q (List.mem_append_right _ listed)) others⟩

end

/-! ## Members and headers -/

theorem typeParams (texture : Texture T) {params : List TypeParam}
    (names : KeepsNames T (params.map (·.name)))
    (bounds : ∀ type ∈ TypeParam.types params, type.KeepsNames T) {text : String}
    (written : writtenTypeParams params = .ok text) : T text := by
  obtain ⟨texts, made, rfl⟩ := map_eq_ok.mp written
  apply texture.bracketed
  refine forall_mem_of_mapM made (P := T) ?_
  intro p listed text written
  have name : T (quoteName p.name) := names p.name (List.mem_map_of_mem listed)
  unfold TypeParam.written at written
  split at written
  · exact Except.ok.inj written ▸ name
  · next bound given =>
    obtain ⟨inner, made, rfl⟩ := map_eq_ok.mp written
    have keeps := bounds bound (TypeParam.mem_types.mpr ⟨p, listed, given⟩)
    exact texture.append (texture.append name (texture.fixed " <: " (by decide)))
      (texture.type bound keeps made)

theorem params (texture : Texture T) {params : List Param}
    (names : KeepsNames T (params.map (·.name)))
    (types : ∀ p ∈ params, p.type.KeepsNames T) {text : String}
    (written : writtenParams params = .ok text) : T text := by
  obtain ⟨texts, made, rfl⟩ := map_eq_ok.mp written
  apply texture.intercalate (texture.fixed ", " (by decide))
  refine forall_mem_of_mapM made (P := T) ?_
  intro p listed text written
  obtain ⟨inner, made, rfl⟩ := map_eq_ok.mp written
  have name : T (quoteName p.name) := names p.name (List.mem_map_of_mem listed)
  have type : T inner := texture.type p.type (types p listed) made
  refine texture.append
    (texture.append (texture.append name (texture.fixed ": " (by decide))) type) ?_
  split
  · exact texture.fixed " = js.native" (by decide)
  · exact texture.empty

theorem object (texture : Texture T) {name : String} (keeps : T (quoteName name)) :
    T (objectLine name) :=
  texture.append (texture.append (texture.fixed "object " (by decide)) keeps)
    (texture.fixed " extends js.Object" (by decide))

theorem field (texture : Texture T) {name : String} {type : HostType} (own : T (quoteName name))
    (keeps : type.KeepsNames T) {text : String} (written : fieldLine name type = .ok text) :
    T text := by
  obtain ⟨inner, made, rfl⟩ := map_eq_ok.mp written
  have front := texture.append (texture.fixed "var " (by decide)) own
  exact texture.append
    (texture.append (texture.append front (texture.fixed ": " (by decide)))
      (texture.type type keeps made))
    (texture.fixed " = js.native" (by decide))

end Texture

/-- The names that a member brings besides those in its types, or the text of a comment. -/
def Symbol.words : Symbol → List String
  | .comment text => [text]
  | .field name _ => [name]
  | .method m => m.name :: (m.typeParams.map (·.name) ++ m.params.map (·.name))
  | .container _ => []

namespace Texture

variable {T : String → Prop}

theorem method (texture : Texture T) {m : Method} (names : KeepsNames T (Symbol.method m).words)
    (types : ∀ type ∈ m.types, type.KeepsNames T) {text : String}
    (written : m.line? = .ok (some text)) : T text := by
  obtain ⟨own, others⟩ := List.forall_mem_cons.mp names
  have paramNames : KeepsNames T (m.params.map (·.name)) := fun word listed =>
    others word (List.mem_append_right _ listed)
  have typeParamNames : KeepsNames T (m.typeParams.map (·.name)) := fun word listed =>
    others word (List.mem_append_left _ listed)
  have paramTypes : ∀ p ∈ m.params, p.type.KeepsNames T := by
    intro p listed
    apply types
    simp only [Method.types, List.mem_append, List.mem_map]
    exact .inl (.inr ⟨p, listed, rfl⟩)
  have bounds : ∀ type ∈ TypeParam.types m.typeParams, type.KeepsNames T := by
    intro type listed
    apply types
    simp only [Method.types, List.mem_append]
    exact .inl (.inl listed)
  unfold Method.line? at written
  split at written
  · split at written
    · cases written
    · obtain ⟨params, made, same⟩ := map_eq_ok.mp written
      obtain rfl := Option.some.inj same
      exact texture.append
        (texture.append (texture.fixed "def this(" (by decide))
          (texture.params paramNames paramTypes made))
        (texture.fixed ") = this()" (by decide))
  · obtain ⟨line, made, same⟩ := map_eq_ok.mp written
    obtain rfl := Option.some.inj same
    obtain ⟨typeParams, first, made⟩ := bind_eq_ok.mp made
    obtain ⟨params, second, made⟩ := bind_eq_ok.mp made
    obtain ⟨result, third, made⟩ := bind_eq_ok.mp made
    obtain rfl := Except.ok.inj made
    have access : T (if m.bracket then "@JSBracketAccess " else "") := by
      split
      · exact texture.fixed "@JSBracketAccess " (by decide)
      · exact texture.empty
    have result : T result := texture.type m.result (types _ (by simp [Method.types])) third
    have name := texture.append (texture.append access (texture.fixed "def " (by decide))) own
    have signature := texture.append
      (texture.append (texture.append name (texture.typeParams typeParamNames bounds first))
        (texture.fixed "(" (by decide)))
      (texture.params paramNames paramTypes second)
    exact texture.append
      (texture.append (texture.append signature (texture.fixed "): " (by decide))) result)
      (texture.fixed " = js.native" (by decide))

theorem header (texture : Texture T) {info : ClassHead} (own : T (quoteName info.name))
    (typeParamNames : KeepsNames T (info.typeParams.map (·.name)))
    (bounds : ∀ type ∈ TypeParam.types info.typeParams, type.KeepsNames T)
    (parents : ∀ type ∈ info.parents, type.KeepsNames T) {text : String}
    (written : info.line = .ok text) : T text := by
  obtain ⟨typeParams, first, written⟩ := bind_eq_ok.mp written
  obtain ⟨texts, second, written⟩ := bind_eq_ok.mp written
  obtain rfl := Except.ok.inj written
  have word : T (if info.isTrait then "trait " else "class ") := by
    split
    · exact texture.fixed "trait " (by decide)
    · exact texture.fixed "class " (by decide)
  have object : ∀ q ∈ HostType.object.names, ∀ part ∈ q.parts,
      '\n' ∉ (quoteName part).toList ∧ (quoteName part).toList.getLast? ≠ some '\x7b' := by decide
  have inner : ∀ q ∈ namesOf info.parentTypes, KeepsNames T q.parts := by
    intro q listed
    obtain ⟨type, member, named⟩ := mem_namesOf.mp listed
    unfold ClassHead.parentTypes at member
    split at member
    · obtain rfl := List.mem_singleton.mp member
      exact fun part inside => texture.fixed _ (object q named part inside)
    · exact parents type member q named
  have front := texture.append (texture.append word own)
    (texture.typeParams typeParamNames bounds first)
  exact texture.append (texture.append front (texture.fixed " extends " (by decide)))
    (texture.intercalate (texture.fixed " with " (by decide)) (texture.types _ inner second))

end Texture

/-! ## Containers -/

namespace Container

/-- All names in the head and in the members of a container, and its comments. -/
def words (c : Container) : List String :=
  c.name :: (c.head.typeParams.map (·.name) ++ c.members.flatMap Symbol.words ++
    (namesOf c.types).flatMap (·.parts))

variable {T : String → Prop} {c : Container}

theorem name_mem_words (c : Container) : c.name ∈ c.words := .head _

theorem words_subset_of_mem {s : Symbol} (member : s ∈ c.members) : s.words ⊆ c.words := by
  intro word listed
  have inside : word ∈ c.members.flatMap Symbol.words := List.mem_flatMap.mpr ⟨s, member, listed⟩
  exact .tail _ (List.mem_append_left _ (List.mem_append_right _ inside))

theorem keepsNames_of_mem_types (keeps : KeepsNames T c.words) {type : HostType}
    (member : type ∈ c.types) : type.KeepsNames T := by
  intro q named part inside
  apply keeps
  have listed : part ∈ (namesOf c.types).flatMap (·.parts) :=
    List.mem_flatMap.mpr ⟨q, mem_namesOf.mpr ⟨type, member, named⟩, inside⟩
  exact .tail _ (List.mem_append_right _ listed)

theorem mem_types_of_member {s : Symbol} (member : s ∈ c.members) {type : HostType}
    (listed : type ∈ s.types) : type ∈ c.types :=
  List.mem_append_right _ (List.mem_flatMap.mpr ⟨s, member, listed⟩)

end Container

namespace Texture

variable {T : String → Prop} {c : Container}

/-- What is written for a field or a method is made of its names and types. -/
theorem written (texture : Texture T) (keeps : KeepsNames T c.words) {s : Symbol}
    (member : s ∈ c.members) (comments : ∀ body, s = .comment body → T (commentLine body))
    {text : String} (written : s.WrittenAs text) : T text := by
  have names : KeepsNames T s.words := fun word listed =>
    keeps word (Container.words_subset_of_mem member listed)
  have types : ∀ type ∈ s.types, type.KeepsNames T := fun type listed =>
    Container.keepsNames_of_mem_types keeps (Container.mem_types_of_member member listed)
  cases s with
  | comment body =>
    obtain rfl : text = commentLine body := written
    exact comments body rfl
  | field name type => exact texture.field (names name (.head _)) (types type (.head _)) written
  | method m => exact texture.method names types written
  | container d => contradiction

theorem classOrTrait (texture : Texture T) (keeps : KeepsNames T c.words) {info : ClassHead}
    (head : c.head = .classOrTrait info) {text : String} (written : info.line = .ok text) :
    T text := by
  have own : c.name = info.name := by rw [Container.name, Container.key, head]; rfl
  have typeParams : c.head.typeParams = info.typeParams := by rw [head]; rfl
  have parents : c.head.parents = info.parents := by rw [head]; rfl
  refine texture.header (own ▸ keeps _ c.name_mem_words) ?_ ?_ ?_ written
  · intro word listed
    apply keeps
    rw [← typeParams] at listed
    exact .tail _ (List.mem_append_left _ (List.mem_append_left _ listed))
  · intro type listed
    apply Container.keepsNames_of_mem_types keeps
    rw [← typeParams] at listed
    exact List.mem_append_left _ (List.mem_append_right _ listed)
  · intro type listed
    apply Container.keepsNames_of_mem_types keeps
    rw [← parents] at listed
    exact List.mem_append_left _ (List.mem_append_left _ listed)

end Texture

/-! ## Broken lines -/

namespace Source

/-- A text that stays on its line. -/
def Unbroken (text : String) : Prop := '\n' ∉ text.toList

instance : DecidablePred Unbroken := fun _ => inferInstanceAs (Decidable (_ ∉ _))

theorem unbroken_append {first second : String} :
    Unbroken (first ++ second) ↔ Unbroken first ∧ Unbroken second := by
  simp only [Unbroken, String.toList_append, List.mem_append, not_or]

theorem unbroken_texture : Texture Unbroken where
  fixed _ := And.left
  append first second := unbroken_append.mpr ⟨first, second⟩

theorem unbroken_quoteName {name : String} : Unbroken (quoteName name) ↔ Unbroken name := by
  unfold quoteName
  split
  · have quote : Unbroken "\x60" := by decide
    simp only [unbroken_append, quote, true_and, and_true]
  · rfl

theorem mem_keepOpen {c : Char} {chars : List Char} (member : c ∈ keepOpen chars) :
    c = ' ' ∨ c ∈ chars := by
  fun_induction keepOpen chars with
  | case1 rest ih =>
    simp only [List.mem_cons] at member ⊢
    rcases member with same | same | same | there
    · exact .inr (.inl same)
    · exact .inl same
    · exact .inr (.inr (.inl same))
    · exact (ih there).imp_right fun inside => .inr (.inr inside)
  | case2 d rest _ ih =>
    rcases List.mem_cons.mp member with same | there
    · exact .inr (List.mem_cons.mpr (.inl same))
    · exact (ih there).imp_right (List.mem_cons_of_mem d)
  | case3 => contradiction

theorem unbroken_commentLine {text : String} (unbroken : Unbroken text) :
    Unbroken (commentLine text) := by
  have kept : Unbroken (String.ofList (keepOpen text.toList)) := by
    intro broken
    rw [String.toList_ofList] at broken
    rcases mem_keepOpen broken with blank | inside
    · contradiction
    · exact unbroken inside
  have opening : Unbroken "/* " := by decide
  have closing : Unbroken " */" := by decide
  simp only [commentLine, unbroken_append, kept, opening, closing, and_self]

end Source

namespace Text

theorem ofNat_eq_newline {code : Nat} (same : Char.ofNat code = '\n') : code = 10 := by
  by_cases valid : code.isValidChar
  · rw [Char.ofNat, dif_pos valid] at same
    exact congrArg Char.toNat same
  · rw [Char.ofNat, dif_neg valid] at same
    contradiction

/-- No character is moved down to the control characters. -/
theorem lt_of_upper? {run : CaseRun} (listed : run ∈ upperRuns) {code upper : Nat}
    (moved : run.upper? code = some upper) : 10 < upper := by
  have table : ∀ run ∈ upperRuns, 10 < (run.first : Int) + run.shift := by decide +kernel
  have least := table run listed
  unfold CaseRun.upper? at moved
  split at moved
  · next inside =>
    simp only [Bool.and_eq_true, decide_eq_true_eq] at inside
    obtain rfl := Option.some.inj moved
    omega
  · cases moved

theorem newline_not_mem_upperCase {c : Char} (other : c ≠ '\n') : '\n' ∉ upperCase c := by
  have table : ∀ entry ∈ upperExpansions, 10 ∉ entry.2 := by decide +kernel
  unfold upperCase
  split
  · next codes found =>
    intro member
    obtain ⟨code, listed, same⟩ := List.mem_map.mp member
    obtain rfl := ofNat_eq_newline same
    obtain ⟨before, after, here, _⟩ := List.lookup_eq_some_iff.mp found
    have there : (c.toNat, codes) ∈ upperExpansions := by
      rw [here]
      exact List.mem_append_right _ (.head _)
    exact table _ there listed
  · intro member
    rw [List.mem_singleton] at member
    cases moved : upperRuns.findSome? (·.upper? c.toNat) with
    | none =>
      rw [moved] at member
      exact other member.symm
    | some upper =>
      rw [moved] at member
      obtain ⟨run, listed, found⟩ := List.exists_of_findSome?_eq_some moved
      have above := lt_of_upper? listed found
      have code := ofNat_eq_newline member.symm
      omega

theorem unbroken_capitalize {text : String} (unbroken : Source.Unbroken text) :
    Source.Unbroken (capitalize text) := by
  unfold capitalize
  split
  · exact unbroken
  · next first rest chars =>
    unfold Source.Unbroken at unbroken ⊢
    rw [chars, List.mem_cons, not_or] at unbroken
    rw [String.toList_ofList, List.mem_append, not_or]
    exact ⟨newline_not_mem_upperCase fun same => unbroken.1 same.symm, unbroken.2⟩

end Text
end Facade
