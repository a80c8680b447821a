import Facade.Proofs.Names
import Facade.Source.TypeText

/-! What can be read off a written type. Prefixes that every facade sees are left out, and of a
repeated type only the first argument is written. All the rest can be read: in a text without
back-quotes in its names, each name, each argument and each star stands apart from its
neighbours. -/
namespace Facade
open Source (quoteName plainWord plainTail wordStart wordRest reserved)

/-- The parts of a name that are written. -/
def QualifiedName.shortened (q : QualifiedName) : List String :=
  match after? QualifiedName.scalaJS.parts q.parts with
  | some rest => "js" :: rest
  | none =>
      match QualifiedName.scala.directIn? q <|> QualifiedName.javaLang.directIn? q with
      | some part => [part]
      | none => q.parts

theorem QualifiedName.written_eq (q : QualifiedName) :
    q.written = ".".intercalate (q.shortened.map quoteName) := by
  unfold written shortened
  cases after? scalaJS.parts q.parts with
  | some rest => rfl
  | none => cases scala.directIn? q <|> javaLang.directIn? q <;> rfl

theorem after?_eq_some {before whole rest : List String} :
    after? before whole = some rest ↔ whole = before ++ rest := by
  induction before generalizing whole with
  | nil => simp [after?, eq_comm]
  | cons p before ih =>
    cases whole with
    | nil => simp [after?]
    | cons q whole =>
      by_cases same : p = q
      · simp [after?, same, ih]
      · simp [after?, same, Ne.symm same]

theorem QualifiedName.directIn?_eq_some {package q : QualifiedName} {part : String} :
    package.directIn? q = some part ↔ q.parts = package.parts ++ [part] := by
  rw [← after?_eq_some]
  simp only [directIn?]
  split
  · next found => simp [found]
  · next other => exact ⟨nofun, fun found => absurd found (other part)⟩

theorem QualifiedName.mem_shortened {q : QualifiedName} {part : String}
    (member : part ∈ q.shortened) : part = "js" ∨ part ∈ q.parts := by
  unfold shortened at member
  split at member
  · next rest found =>
    rcases List.mem_cons.mp member with same | there
    · exact .inl same
    · rw [after?_eq_some.mp found]
      exact .inr (List.mem_append_right _ there)
  · split at member
    · next part' found =>
      obtain rfl := List.mem_singleton.mp member
      have last {package : QualifiedName} (direct : package.directIn? q = some part) :
          part ∈ q.parts := by
        rw [directIn?_eq_some.mp direct]
        exact List.mem_append_right _ (.head _)
      rw [Option.orElse_eq_orElse, Option.orElse_eq_or, Option.or_eq_some_iff] at found
      rcases found with direct | ⟨_, direct⟩
      · exact .inr (last direct)
      · exact .inr (last direct)
    · exact .inr member

/-- A name without back-quotes can be told from its surroundings when it stands in back-quotes. -/
def Quotable (name : String) : Prop := '\x60' ∉ name.toList

theorem quotable_js : Quotable "js" := by simp [Quotable]

/-- A written type as it can be read: the parts of its name, its arguments, and its stars. -/
structure Spelling where
  parts : List String
  args : List Spelling
  stars : Nat

namespace Spelling

def starred (s : Spelling) : Spelling := { s with stars := s.stars + 1 }

mutual

def text : Spelling → String
  | ⟨parts, args, stars⟩ =>
      ".".intercalate (parts.map quoteName) ++ bracketed (texts args) ++
        String.ofList (List.replicate stars '*')

def texts : List Spelling → List String
  | [] => []
  | s :: rest => s.text :: texts rest

end

theorem texts_eq_map (spellings : List Spelling) : texts spellings = spellings.map text := by
  induction spellings with
  | nil => rfl
  | cons s rest ih => rw [texts, ih, List.map_cons]

theorem text_starred (s : Spelling) : s.starred.text = s.text ++ "*" := by
  obtain ⟨parts, args, stars⟩ := s
  simp only [starred, text, List.replicate_succ', String.ofList_append, ← String.append_assoc]

mutual

/-- No name has a back-quote in it. -/
def Legible : Spelling → Prop
  | ⟨parts, args, _⟩ => (∀ part ∈ parts, Quotable part) ∧ AllLegible args

def AllLegible : List Spelling → Prop
  | [] => True
  | s :: rest => s.Legible ∧ AllLegible rest

end

theorem allLegible_iff {spellings : List Spelling} :
    AllLegible spellings ↔ ∀ s ∈ spellings, s.Legible := by
  induction spellings with
  | nil => simp [AllLegible]
  | cons s rest ih => simp [AllLegible, ih]

theorem Legible.starred {s : Spelling} (legible : s.Legible) : s.starred.Legible := by
  cases s
  exact legible

end Spelling

/-! What a computation that may fault makes of what another one made. -/

theorem map_eq_ok {ε α β : Type} {made : Except ε α} {f : α → β} {b : β} :
    made.map f = .ok b ↔ ∃ a, made = .ok a ∧ f a = b := by
  cases made <;> simp [Except.map]

theorem bind_eq_ok {ε α β : Type} {made : Except ε α} {f : α → Except ε β} {b : β} :
    made >>= f = .ok b ↔ ∃ a, made = .ok a ∧ f a = .ok b := by
  cases made <;> simp [bind, Except.bind]

namespace HostType

mutual

def spelled : HostType → Except TypeFault Spelling
  | ⟨name, args⟩ =>
      if name == .repeated then spelledElement args
      else (spelledAll args).map fun args => ⟨name.shortened, args, 0⟩

def spelledElement : List HostType → Except TypeFault Spelling
  | [] => .error .missingPart
  | element :: _ => element.spelled.map (·.starred)

def spelledAll : List HostType → Except TypeFault (List Spelling)
  | [] => .ok []
  | t :: ts => do
      let first ← t.spelled
      let rest ← spelledAll ts
      return first :: rest

end

def Legible (t : HostType) : Prop := ∀ q ∈ t.names, ∀ part ∈ q.parts, Quotable part

mutual

/-- What is written of a type is the text of its spelling. -/
theorem written_eq (t : HostType) : t.written = t.spelled.map (·.text) := by
  obtain ⟨name, args⟩ := t
  unfold written spelled
  split
  · exact writtenElement_eq args
  · rw [writtenAll_eq args]
    cases spelledAll args with
    | error fault => rfl
    | ok spellings =>
      simp only [Except.map, Spelling.text, QualifiedName.written_eq, Spelling.texts_eq_map,
        List.replicate_zero, String.ofList_nil, String.append_empty]

theorem writtenElement_eq (args : List HostType) :
    writtenElement args = (spelledElement args).map (·.text) := by
  cases args with
  | nil => rfl
  | cons element others =>
    unfold writtenElement spelledElement
    rw [written_eq element]
    cases element.spelled with
    | error fault => rfl
    | ok s => simp only [Except.map, Spelling.text_starred]

theorem writtenAll_eq (ts : List HostType) :
    writtenAll ts = (spelledAll ts).map (List.map (·.text)) := by
  cases ts with
  | nil => rfl
  | cons t ts =>
    unfold writtenAll spelledAll
    rw [written_eq t, writtenAll_eq ts]
    cases t.spelled with
    | error fault => rfl
    | ok s => cases spelledAll ts <;> rfl

end

mutual

/-- The parts of a spelling come from the type, but for the short form of the library's package. -/
theorem legible_spelled (t : HostType) (legible : t.Legible) {s : Spelling}
    (spelled : t.spelled = .ok s) : s.Legible := by
  obtain ⟨name, args⟩ := t
  have inner : ∀ q ∈ namesOf args, ∀ part ∈ q.parts, Quotable part := fun q listed =>
    legible q (.tail _ listed)
  unfold HostType.spelled at spelled
  split at spelled
  · exact legible_spelledElement args inner spelled
  · obtain ⟨spellings, each, rfl⟩ := map_eq_ok.mp spelled
    refine ⟨fun part member => ?_, legible_spelledAll args inner each⟩
    rcases QualifiedName.mem_shortened member with rfl | there
    · exact quotable_js
    · exact legible name (.head _) part there

theorem legible_spelledElement (args : List HostType)
    (legible : ∀ q ∈ namesOf args, ∀ part ∈ q.parts, Quotable part) {s : Spelling}
    (spelled : spelledElement args = .ok s) : s.Legible := by
  cases args with
  | nil => contradiction
  | cons element others =>
    obtain ⟨unstarred, inner, rfl⟩ := map_eq_ok.mp spelled
    have own : element.Legible := fun q listed => legible q (List.mem_append_left _ listed)
    exact (legible_spelled element own inner).starred

theorem legible_spelledAll (ts : List HostType)
    (legible : ∀ q ∈ namesOf ts, ∀ part ∈ q.parts, Quotable part) {spellings : List Spelling}
    (spelled : spelledAll ts = .ok spellings) : Spelling.AllLegible spellings := by
  cases ts with
  | nil =>
    obtain rfl := Except.ok.inj spelled
    trivial
  | cons t ts =>
    obtain ⟨s, first, spelled⟩ := bind_eq_ok.mp spelled
    obtain ⟨others, rest, spelled⟩ := bind_eq_ok.mp spelled
    obtain rfl := Except.ok.inj spelled
    exact ⟨legible_spelled t (fun q listed => legible q (List.mem_append_left _ listed)) first,
      legible_spelledAll ts (fun q listed => legible q (List.mem_append_right _ listed)) rest⟩

end

end HostType
end Facade
