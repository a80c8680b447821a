import Facade.Proofs.Readability

/-! What a written type leaves open. Only the prefixes that every facade sees are left out, so a
written type says which type it is up to these, if a star in it always marks a repeated type and no
back-quote hides where a name ends. -/
namespace Facade

/-! ## Names -/

namespace QualifiedName

/-- A name without the prefixes that every facade sees. -/
def abbreviated (q : QualifiedName) : QualifiedName :=
  match q.parts with
  | "_root_" :: "scala" :: "scalajs" :: "js" :: rest => ⟨"js" :: rest⟩
  | ["_root_", "scala", part] => ⟨[part]⟩
  | ["_root_", "java", "lang", part] => ⟨[part]⟩
  | _ => q

theorem parts_abbreviated (q : QualifiedName) : q.abbreviated.parts = q.shortened := by
  unfold abbreviated
  split
  · next rest path =>
    have found : after? scalaJS.parts q.parts = some rest := after?_eq_some.mpr path
    simp only [shortened, found]
  · next part path =>
    have found : after? scalaJS.parts q.parts = none := by simp [path, scalaJS, after?]
    have direct : scala.directIn? q = some part := directIn?_eq_some.mpr path
    simp [shortened, found, direct]
  · next part path =>
    have found : after? scalaJS.parts q.parts = none := by simp [path, scalaJS, after?]
    have other : scala.directIn? q = none := by simp [directIn?, path, scala, after?]
    have direct : javaLang.directIn? q = some part := directIn?_eq_some.mpr path
    simp [shortened, found, other, direct]
  · next notJs notScala notJava =>
    have found : after? scalaJS.parts q.parts = none :=
      Option.eq_none_iff_forall_ne_some.mpr fun rest here => notJs rest (after?_eq_some.mp here)
    have other : scala.directIn? q = none :=
      Option.eq_none_iff_forall_ne_some.mpr fun part here =>
        notScala part (directIn?_eq_some.mp here)
    have another : javaLang.directIn? q = none :=
      Option.eq_none_iff_forall_ne_some.mpr fun part here =>
        notJava part (directIn?_eq_some.mp here)
    simp [shortened, found, other, another]

theorem shortened_js (rest : List String) : shortened ⟨"js" :: rest⟩ = "js" :: rest := by
  simp [shortened, directIn?, scalaJS, scala, javaLang, after?]

theorem shortened_single (part : String) : shortened ⟨[part]⟩ = [part] := by
  simp [shortened, directIn?, scalaJS, scala, javaLang, after?]

theorem abbreviated_cases (q : QualifiedName) :
    q.abbreviated = q ∨ (∃ rest, q.abbreviated = ⟨"js" :: rest⟩) ∨
      ∃ part, q.abbreviated = ⟨[part]⟩ := by
  unfold abbreviated
  split
  · exact .inr (.inl ⟨_, rfl⟩)
  · exact .inr (.inr ⟨_, rfl⟩)
  · exact .inr (.inr ⟨_, rfl⟩)
  · exact .inl rfl

/-- Nothing is left out twice. -/
theorem shortened_abbreviated (q : QualifiedName) : q.abbreviated.shortened = q.shortened := by
  rcases q.abbreviated_cases with same | ⟨rest, same⟩ | ⟨part, same⟩
  · rw [same]
  · rw [← q.parts_abbreviated, same, shortened_js]
  · rw [← q.parts_abbreviated, same, shortened_single]

theorem mem_abbreviated {q : QualifiedName} {part : String} (member : part ∈ q.abbreviated.parts) :
    part = "js" ∨ part ∈ q.parts := mem_shortened (q.parts_abbreviated ▸ member)

end QualifiedName

/-! ## Types -/

namespace HostType

/-- Every name has a part, no part has a back-quote in it, and a star is nothing but the name of a
repeated type with its element. -/
inductive Proper : HostType → Prop where
  | named {name : QualifiedName} {args : List HostType} :
      name.parts ≠ [] → (∀ part ∈ name.parts, Quotable part ∧ part ≠ "*") →
      (∀ t ∈ args, Proper t) → Proper ⟨name, args⟩
  | repeated {element : HostType} : Proper element → Proper (.repeated element)

mutual

/-- A type without the prefixes that every facade sees, in all its names. -/
def abbreviated : HostType → HostType
  | ⟨name, args⟩ => ⟨name.abbreviated, abbreviatedAll args⟩

def abbreviatedAll : List HostType → List HostType
  | [] => []
  | t :: ts => t.abbreviated :: abbreviatedAll ts

end

theorem abbreviated_repeated (element : HostType) :
    (repeated element).abbreviated = repeated element.abbreviated := rfl

theorem spelled_repeated (element : HostType) :
    (repeated element).spelled = element.spelled.map (·.starred) := rfl

/-- A name in which no part is a star is that of a declared type. -/
theorem spelled_named {name : QualifiedName} (plain : ∀ part ∈ name.parts, part ≠ "*")
    (args : List HostType) :
    spelled ⟨name, args⟩ = (spelledAll args).map fun args => ⟨name.shortened, args, 0⟩ := by
  have other : ¬ (name == .repeated) = true := by
    rw [beq_iff_eq]
    rintro rfl
    exact plain "*" (.head _) rfl
  rw [spelled, if_neg other]

theorem Proper.legible {t : HostType} (proper : t.Proper) : t.Legible := by
  induction proper with
  | named _ plain _ ih =>
    rintro q (_ | ⟨_, inner⟩) part member
    · exact (plain part member).1
    · obtain ⟨t, listed, inside⟩ := mem_namesOf.mp inner
      exact ih t listed q inside part member
  | repeated _ ih =>
    rintro q (_ | ⟨_, inner⟩) part member
    · obtain rfl := List.mem_singleton.mp member
      simp [Quotable]
    · rw [namesOf, namesOf, List.append_nil] at inner
      exact ih q inner part member

end HostType

namespace Spelling

mutual

/-- The type that is read off a spelling. -/
def hostType : Spelling → HostType
  | ⟨parts, args, stars⟩ => Nat.repeat HostType.repeated stars ⟨⟨parts⟩, hostTypes args⟩

def hostTypes : List Spelling → List HostType
  | [] => []
  | s :: rest => s.hostType :: hostTypes rest

end

theorem hostType_starred (s : Spelling) : s.starred.hostType = .repeated s.hostType := by
  cases s
  rfl

end Spelling

namespace HostType

/-- A list of types is spelled if each of them is. -/
theorem exists_spelledAll {args : List HostType}
    (each : ∀ t ∈ args, ∃ s, t.spelled = .ok s ∧ s.hostType = t.abbreviated) :
    ∃ spellings, spelledAll args = .ok spellings ∧
      Spelling.hostTypes spellings = abbreviatedAll args := by
  induction args with
  | nil => exact ⟨[], rfl, rfl⟩
  | cons t args ih =>
    obtain ⟨s, spelled, read⟩ := each t (.head _)
    obtain ⟨rest, others, reads⟩ := ih fun u member => each u (.tail _ member)
    refine ⟨s :: rest, ?_, ?_⟩
    · rw [spelledAll, spelled, others]
      rfl
    · rw [Spelling.hostTypes, abbreviatedAll, read, reads]

/-- The spelling of a proper type is that of its abbreviation. -/
theorem Proper.exists_spelled {t : HostType} (proper : t.Proper) :
    ∃ s, t.spelled = .ok s ∧ s.hostType = t.abbreviated := by
  induction proper with
  | @named name args _ plain _ ih =>
    obtain ⟨spellings, spelled, read⟩ := exists_spelledAll ih
    refine ⟨⟨name.shortened, spellings, 0⟩, ?_, ?_⟩
    · rw [spelled_named (fun part member => (plain part member).2), spelled]
      rfl
    · rw [abbreviated, ← read, ← QualifiedName.parts_abbreviated]
      rfl
  | repeated _ ih =>
    obtain ⟨s, spelled, read⟩ := ih
    refine ⟨s.starred, ?_, ?_⟩
    · rw [spelled_repeated, spelled]
      rfl
    · rw [s.hostType_starred, read, abbreviated_repeated]

theorem spelledAll_abbreviated {args : List HostType}
    (each : ∀ t ∈ args, t.abbreviated.spelled = t.spelled) :
    spelledAll (abbreviatedAll args) = spelledAll args := by
  induction args with
  | nil => rfl
  | cons t args ih =>
    rw [abbreviatedAll, spelledAll, spelledAll, each t (.head _),
      ih fun u member => each u (.tail _ member)]

/-- What a type is abbreviated to is spelled in the same way. -/
theorem Proper.spelled_abbreviated {t : HostType} (proper : t.Proper) :
    t.abbreviated.spelled = t.spelled := by
  induction proper with
  | @named name args _ plain _ ih =>
    have short : ∀ part ∈ name.abbreviated.parts, part ≠ "*" := by
      intro part member
      rcases QualifiedName.mem_abbreviated member with rfl | there
      · decide
      · exact (plain part there).2
    rw [abbreviated, spelled_named short, spelled_named fun part member => (plain part member).2,
      spelledAll_abbreviated ih, name.shortened_abbreviated]
  | repeated _ ih => rw [abbreviated_repeated, spelled_repeated, spelled_repeated, ih]

/-- Whatever is proper is written, and two types are written in the same way exactly if they are
the same without the prefixes that every facade sees. -/
theorem written_abbreviated {t u : HostType} (proper : t.Proper) (proper' : u.Proper) :
    ∃ text text', t.written = .ok text ∧ u.written = .ok text' ∧
      (text = text' ↔ t.abbreviated = u.abbreviated) := by
  obtain ⟨s, spelled, read⟩ := proper.exists_spelled
  obtain ⟨s', spelled', read'⟩ := proper'.exists_spelled
  refine ⟨s.text, s'.text, by rw [written_eq, spelled]; rfl, by rw [written_eq, spelled']; rfl, ?_⟩
  constructor
  · intro same
    have spellings : s = s' := Spelling.text_inj (legible_spelled t proper.legible spelled)
      (legible_spelled u proper'.legible spelled') same
    rw [← read, ← read', spellings]
  · intro same
    have spellings : s = s' := by
      rw [← Except.ok.injEq (ε := TypeFault), ← spelled, ← spelled', ← proper.spelled_abbreviated,
        ← proper'.spelled_abbreviated, same]
    rw [spellings]

/-- A repeated type in an array, with both names in full and with both left short. -/
theorem written_abbreviated_array :
    let full : HostType := ⟨.array, [.repeated .string]⟩
    let short : HostType := ⟨⟨["js", "Array"]⟩, [.repeated ⟨⟨["String"]⟩, []⟩]⟩
    full.Proper ∧ short.Proper ∧ full ≠ short ∧ full.abbreviated = short.abbreviated ∧
      full.written = .ok "js.Array[String*]" ∧ short.written = .ok "js.Array[String*]" := by
  intro full short
  have plain (parts : List String) (each : parts.all fun part =>
      !part.toList.contains '\x60' && part != "*") :
      ∀ part ∈ parts, Quotable part ∧ part ≠ "*" := by
    intro part member
    simpa [Quotable] using List.all_eq_true.mp each part member
  have proper : full.Proper := by
    refine .named (by decide) (plain _ (by decide)) fun t member => ?_
    obtain rfl := List.mem_singleton.mp member
    exact .repeated (.named (by decide) (plain _ (by decide)) (List.forall_mem_nil _))
  have proper' : short.Proper := by
    refine .named (by decide) (plain _ (by decide)) fun t member => ?_
    obtain rfl := List.mem_singleton.mp member
    exact .repeated (.named (by decide) (plain _ (by decide)) (List.forall_mem_nil _))
  obtain ⟨text, text', written, written', same⟩ := written_abbreviated proper proper'
  have here : full.written = .ok "js.Array[String*]" := by rfl
  obtain rfl : text = "js.Array[String*]" := Except.ok.inj (written.symm.trans here)
  have alike : full.abbreviated = short.abbreviated := by rfl
  exact ⟨proper, proper', by decide, alike, here, same.mpr alike ▸ written'⟩

end HostType
end Facade
