import Facade.Proofs.Annotations

/-! Printing in another place. What a symbol is printed as does not depend on the pen, apart from
the indentation before its lines and the packages before the paths of its annotations; and the pen
is as it was before. -/
namespace Facade
open Source (beginsWith beginsWith_append beginsWith_mono beginsWith_apart beginsWith_objectLine
  memberWords globalMark)

namespace Source

/-! ## Lines in another place -/

/-- What an annotation with a path begins with. -/
def globalStart : String := "@JSGlobal(\""

/-- The names of packages, each with a dot behind it. -/
def dotted (path : List String) : List Char := path.flatMap fun name => name.toList ++ ['.']

/-- A line with packages before the path that it annotates, if it does. -/
def qualified (path : List String) : List Char → List Char
  | ' ' :: rest => ' ' :: qualified path rest
  | chars =>
      if beginsWith [globalStart] chars then
        globalStart.toList ++ (dotted path ++ chars.drop globalStart.toList.length)
      else chars

/-- A line as it is printed in another place: an empty one stays empty. -/
def relocated (indent : String) (path : List String) (line : String) : String :=
  if line.isEmpty then "" else indent ++ String.ofList (qualified path line.toList)

/-- The words that lines begin with, apart from annotations with a path. -/
def lineWords : List String :=
  memberWords ++ ["package ", "@js.native", "@JSGlobalScope", "object ", "trait ", "class ",
    "import ", "\x7d"]

theorem qualified_blanks {blanks : List Char} (blank : ∀ c ∈ blanks, (c == ' ') = true)
    (path : List String) (chars : List Char) :
    qualified path (blanks ++ chars) = blanks ++ qualified path chars := by
  induction blanks with
  | nil => rfl
  | cons c blanks ih =>
    obtain ⟨first, others⟩ := List.forall_mem_cons.mp blank
    obtain rfl := beq_iff_eq.mp first
    exact congrArg (' ' :: ·) (ih others)

theorem ne_blank_of_beginsWith {chars : List Char} (visible : beginsWith [" "] chars = false)
    (rest : List Char) : chars ≠ ' ' :: rest := by
  rintro rfl
  simp [beginsWith] at visible

theorem qualified_of_beginsWith {chars : List Char} (begins : beginsWith lineWords chars = true)
    (path : List String) : qualified path chars = chars := by
  have visible : beginsWith [" "] chars = false := beginsWith_apart begins (by decide)
  have plain : beginsWith [globalStart] chars = false := beginsWith_apart begins (by decide)
  rw [qualified.eq_2 path chars (ne_blank_of_beginsWith visible), plain]
  rfl

theorem toList_globalMark (path : List String) :
    (globalMark path).toList =
      globalStart.toList ++ ((".".intercalate path).toList ++ ['"', ')']) := by
  rw [globalMark, String.toList_append, String.toList_append, List.append_assoc]
  rfl

theorem beginsWith_globalMark (path : List String) :
    beginsWith [globalStart] (globalMark path).toList = true := by
  rw [globalMark, String.append_assoc]
  exact beginsWith_append (by decide) _

theorem dotted_append (path : List String) {inner : List String} (some : inner ≠ []) :
    dotted path ++ (".".intercalate inner).toList = (".".intercalate (path ++ inner)).toList := by
  induction path with
  | nil => rfl
  | cons name path ih =>
    have more : path ++ inner ≠ [] := List.append_ne_nil_of_right_ne_nil path some
    rw [List.cons_append, String.intercalate_cons_of_ne_nil more, String.toList_append,
      String.toList_append, ← ih, dotted, List.flatMap_cons, List.append_assoc]
    rfl

/-- The packages come before the path that is there. -/
theorem qualified_globalMark (path : List String) {inner : List String} (some : inner ≠ []) :
    qualified path (globalMark inner).toList = (globalMark (path ++ inner)).toList := by
  have visible : beginsWith [" "] (globalMark inner).toList = false :=
    beginsWith_apart (beginsWith_globalMark inner) (by decide)
  rw [qualified.eq_2 path _ (ne_blank_of_beginsWith visible), if_pos (beginsWith_globalMark inner),
    toList_globalMark, toList_globalMark, List.drop_left, ← dotted_append path some,
    List.append_assoc]

end Source

open Source (globalStart lineWords qualified relocated qualified_blanks qualified_of_beginsWith
  qualified_globalMark)

/-! ## Lines that can be told apart -/

/-- An annotation has a path, and any other line does not look like one. -/
def LineContent.Told : LineContent → Prop
  | .global path => path ≠ []
  | content => content.text [] = "" ∨ beginsWith lineWords (content.text []).toList = true

theorem LineContent.text_of_global?_eq_none {content : LineContent}
    (none : content.global? = none) (path : List String) : content.text path = content.text [] := by
  cases content with
  | global inner => contradiction
  | plain text | opening first | closing | member s text => rfl

/-- Only annotations say where they stand. -/
theorem LineContent.Told.toList_text {content : LineContent} (told : content.Told)
    (path : List String) :
    (content.text path).toList = qualified path (content.text []).toList := by
  cases content with
  | global inner => exact (qualified_globalMark path told).symm
  | plain text | opening first | closing | member s text =>
    rw [text_of_global?_eq_none rfl path]
    rcases told with none | begins
    · rw [none]
      rfl
    · exact (qualified_of_beginsWith begins path).symm

theorem LineContent.text_eq_empty_iff {content : LineContent} (path : List String) :
    content.text path = "" ↔ content.text [] = "" := by
  cases content with
  | global inner => simp [text, globalMark]
  | plain text | opening first | closing | member s text => rfl

/-- A line is printed in another place as it is printed at the margin of a file, moved there. -/
theorem SheetLine.printed_eq_relocated {line : SheetLine} (told : line.content.Told)
    (indent : String) (path : List String) :
    line.printed indent path = relocated indent path (line.printed "" []) := by
  obtain ⟨depth, content⟩ := line
  by_cases none : content.text [] = ""
  · have here : printed indent path ⟨depth, content⟩ = "" := by
      simp [printed, (LineContent.text_eq_empty_iff path).mpr none]
    have alone : printed "" [] ⟨depth, content⟩ = "" := by simp [printed, none]
    rw [here, alone]
    rfl
  · have some : ¬ content.text path = "" := mt (LineContent.text_eq_empty_iff path).mp none
    rw [printed_of_ne indent depth content some, printed_of_ne "" depth content none,
      String.empty_append, relocated, if_neg (by simp [none]), String.toList_append,
      qualified_blanks (blank_margin depth), ← told.toList_text path, ← String.toList_inj]
    simp [String.toList_append]

namespace Container

variable {outputPackage : String} {c : Container} {content : LineContent}

theorem Line.told (line : c.Line outputPackage content) : content.Told := by
  cases line with
  | blank => exact .inl rfl
  | native | scope | closing => exact .inr (by decide)
  | file _ listed =>
    rcases mem_fileHeader listed with rfl | rfl | rfl | rfl
    · exact .inr (beginsWith_append (by decide) _)
    · exact .inl rfl
    · exact .inr (by decide)
    · exact .inr (by decide)
  | package _ =>
    exact .inr (beginsWith_append
      (beginsWith_append (by decide : beginsWith lineWords "package ".toList = true) _) _)
  | loose _ => exact .inr (beginsWith_append (beginsWith_objectLine (by decide) _) _)
  | bare headed => exact .inr (beginsWith_mono (by decide) headed.begins)
  | definition headed =>
    exact .inr (beginsWith_append (beginsWith_mono (by decide) headed.begins) _)
  | member _ written =>
    exact .inr (beginsWith_mono (List.subset_append_left _ _) (beginsWith_of_writtenAs written))

end Container

/-- The lines of a symbol can be told apart. -/
theorem Symbol.every_told (outputPackage : String) (s : Symbol) :
    Sheet.Every LineContent.Told (s.sheet outputPackage) := by
  cases s with
  | container c =>
    intro lines made line listed
    rcases c.every_sheet outputPackage lines made line listed with ⟨path, same⟩ | ⟨d, _, own⟩
    · have there : path ∈ c.annotated.map Prod.fst := by
        rw [← (c.tells_annotated outputPackage).filterMap_global? made]
        exact List.mem_filterMap.mpr ⟨line, listed, by rw [same]; rfl⟩
      obtain ⟨⟨_, d⟩, annotated, rfl⟩ := List.mem_map.mp there
      obtain ⟨around, _, _, rfl⟩ := Container.mem_annotated.mp annotated
      rw [same]
      exact List.concat_ne_nil d.name around
    · exact own.told
  | comment text | field name type | method m =>
    refine every_leaf rfl fun text written => .inr ?_
    exact beginsWith_mono (List.subset_append_left _ _) (Container.beginsWith_of_writtenAs written)

/-- What a symbol writes does not depend on the lines that the pen has written. The indentation of
the pen moves the lines, and its path comes before theirs. A fault is the same everywhere. -/
theorem Symbol.run_print (s : Symbol) (pen : Pen) :
    match s.print.run { outputPackage := pen.outputPackage } with
    | .ok _ alone => s.print.run pen =
        .ok () { pen with lines := pen.lines ++ alone.lines.map (relocated pen.indent pen.path) }
    | .error fault _ => ∃ broken, s.print.run pen = .error fault broken := by
  have here := PenM.writes_symbol pen.outputPackage s pen rfl
  have fresh := PenM.writes_symbol pen.outputPackage s { outputPackage := pen.outputPackage } rfl
  cases made : s.sheet pen.outputPackage with
  | error fault =>
    rw [made] at here fresh
    obtain ⟨broken, failed⟩ := fresh
    rw [failed]
    exact here
  | ok lines =>
    rw [made] at here fresh
    have alone : s.print.run { outputPackage := pen.outputPackage } =
        .ok () (Pen.write { outputPackage := pen.outputPackage } lines) := fresh
    have moved : lines.map (·.printed pen.indent pen.path) =
        (lines.map (·.printed "" [])).map (relocated pen.indent pen.path) := by
      rw [List.map_map]
      apply List.map_congr_left
      intro line listed
      have told := s.every_told pen.outputPackage lines made line listed
      exact SheetLine.printed_eq_relocated told pen.indent pen.path
    rw [alone]
    refine Eq.trans here ?_
    simp only [Pen.write, moved, List.nil_append]

end Facade
