import Facade.Proofs.Mending
import Facade.Proofs.Nesting
import Facade.Proofs.Relocation

/-! Where something stands in a facade does not change what is written for it, and what is written
says where it stands: the annotations in the text of an import are made of the names of the packages
around what they are for. -/
namespace Facade
open Ambient (Node Signature)
open Source (afterMargin beginsWith beginsWith_apart beginsWith_globalMark globalStart globalMark
  lineWords relocated)

/-! ## Reading annotations -/

/-- The annotation with a path that a line is. -/
def Source.mark? (line : String) : Option String :=
  if beginsWith [globalStart] (afterMargin line) then some (String.ofList (afterMargin line))
  else none

namespace LineContent.Told

variable {content : LineContent}

/-- A line without a path does not begin like anything that is apart from all its first words. -/
theorem beginsWith_eq_false (told : content.Told) (other : content.global? = none)
    {words : List String} (empty : beginsWith words [] = false)
    (apart : ∀ v ∈ lineWords, ∀ w ∈ words, ¬ v.toList <+: w.toList ∧ ¬ w.toList <+: v.toList) :
    beginsWith words (content.text []).toList = false := by
  cases content with
  | global path => contradiction
  | plain text | opening first | closing | member s text =>
    rcases told with none | begins
    · rw [none]
      exact empty
    · exact beginsWith_apart begins apart

theorem visible (told : content.Told) : beginsWith [" "] (content.text []).toList = false := by
  cases content with
  | global path => exact beginsWith_apart (beginsWith_globalMark path) (by decide)
  | plain text | opening first | closing | member s text =>
    exact told.beginsWith_eq_false rfl (by decide) (by decide)

theorem beginsWith_globalStart (told : content.Told) :
    beginsWith [globalStart] (content.text []).toList = content.global?.isSome := by
  cases content with
  | global path => exact beginsWith_globalMark path
  | plain text | opening first | closing | member s text =>
    exact told.beginsWith_eq_false rfl (by decide) (by decide)

end LineContent.Told

namespace SheetLine

variable {line : SheetLine}

theorem blank_empty : Blank "" := nofun

theorem mark?_printed (told : line.content.Told) :
    Source.mark? (line.printed "" []) = line.content.global?.map globalMark := by
  rw [Source.mark?, afterMargin_printed blank_empty line.depth told.visible,
    told.beginsWith_globalStart, String.ofList_toList]
  cases line.content <;> rfl

theorem firstLine_printed {c : Container} (starts : line.content.Starts c) :
    c.FirstLine (String.ofList (afterMargin (line.printed "" []))) := by
  have visible : beginsWith [" "] (line.content.text []).toList = false :=
    beginsWith_apart starts.2.begins (by decide)
  rw [afterMargin_printed blank_empty line.depth visible, String.ofList_toList]
  exact starts.2

end SheetLine

section Lines

variable {lines : List SheetLine}

theorem filterMap_mark?_printed (told : ∀ line ∈ lines, line.content.Told) :
    (lines.map (·.printed "" [])).filterMap Source.mark? =
      (lines.filterMap (·.content.global?)).map globalMark := by
  rw [List.filterMap_map, List.map_filterMap]
  apply List.filterMap_congr
  intro line listed
  exact SheetLine.mark?_printed (told line listed)

/-- Each annotation in the text is for what its path says, and the first line of this is next. -/
theorem followed_mark?_printed (told : ∀ line ∈ lines, line.content.Told)
    {shown : List (List String × Container)} {sheet : Sheet} (tells : sheet.Tells shown)
    (made : sheet = .ok lines) :
    List.Forall₂ (fun shown written => written.1 = globalMark shown.1 ∧
        ∃ line ∈ written.2, shown.2.FirstLine (String.ofList (afterMargin line)))
      shown (followed Source.mark? (lines.map (·.printed "" []))) := by
  have read : followed Source.mark? (lines.map (·.printed "" [])) =
      (followed (·.content.global?) lines).map
        (Prod.map globalMark (Option.map (·.printed "" []))) :=
    followed_map fun line listed => SheetLine.mark?_printed (told line listed)
  rw [read, List.forall₂_map_right_iff]
  refine (tells lines made).1.imp fun shown written both => ?_
  obtain ⟨path, line, next, starts⟩ := both
  exact ⟨congrArg globalMark path, _, Option.mem_map_of_mem _ next,
    SheetLine.firstLine_printed starts⟩

end Lines

/-! ## Mended trees -/

namespace Container

theorem isPackage_mended (c : Container) : c.mended.isPackage = c.isPackage := by
  obtain ⟨head, members, index, companion⟩ := c
  cases head <;> rfl

theorem packageNames_mended (c : Container) : c.mended.packageNames = c.packageNames := by
  obtain ⟨head, members, index, companion⟩ := c
  cases head <;> rfl

theorem isAnnotated_mended (c : Container) : c.mended.isAnnotated = c.isAnnotated := by
  obtain ⟨head, members, index, companion⟩ := c
  cases head with
  | package name => exact congrArg (!name.isEmpty && ·) (Symbol.any_mendedAll members)
  | object name => rfl
  | classOrTrait info => exact congrArg (!·) info.isTrait_mended

/-- The paths in a tree, without what they are for. -/
theorem map_fst_annotated (c : Container) :
    c.annotated.map Prod.fst =
      let own := if c.isAnnotated then [[c.name]] else []
      let below := ((Symbol.allAnnotated c.members).map Prod.fst).map (c.packageNames ++ ·)
      if c.isPackage then below ++ own else own ++ below := by
  obtain ⟨head, members, index, companion⟩ := c
  unfold annotated
  dsimp only
  split <;> split <;> simp [Function.comp_def]

/-- A tree is annotated with the same paths when it is mended. -/
theorem map_fst_annotated_mended (c : Container) :
    c.mended.annotated.map Prod.fst = c.annotated.map Prod.fst := by
  induction c using Container.induct with
  | step c ih =>
    have below (members : List Symbol)
        (each : ∀ d : Container, .container d ∈ members →
          d.mended.annotated.map Prod.fst = d.annotated.map Prod.fst) :
        (Symbol.allAnnotated (Symbol.mendedAll members)).map Prod.fst =
          (Symbol.allAnnotated members).map Prod.fst := by
      induction members with
      | nil => rfl
      | cons s rest same =>
        have first : s.mended.annotated.map Prod.fst = s.annotated.map Prod.fst := by
          cases s with
          | container d => exact each d (.head _)
          | comment text | field name type | method m => rfl
        rw [Symbol.mendedAll, Symbol.allAnnotated, Symbol.allAnnotated, List.map_append,
          List.map_append, first, same fun d member => each d (.tail _ member)]
    rw [map_fst_annotated, map_fst_annotated, c.isPackage_mended, c.isAnnotated_mended,
      c.name_mended, c.packageNames_mended, c.members_mended, below c.members ih]

/-! ## Printing a tree -/

variable {c : Container} {outputPackage : String}

/-- What is printed is what the pen has written, also where a fault ends it. -/
theorem text_printed (c : Container) (outputPackage : String) :
    (c.printed outputPackage).text = (c.print.left { outputPackage }).text := by
  have same : (Symbol.container c).print { outputPackage } = c.print.run { outputPackage } := rfl
  unfold printed Symbol.printed PenM.left
  rw [same]
  cases c.print.run { outputPackage } <;> rfl

/-- A tree whose sheet can be made is printed to its end. -/
theorem lines_left {lines : List SheetLine} (made : c.sheet outputPackage = .ok lines) :
    (c.print.left { outputPackage }).lines = lines.map (·.printed "" []) := by
  have left := PenM.writes_container outputPackage c { outputPackage } rfl
  rw [made] at left
  have ran : c.print.run { outputPackage } = .ok () (Pen.write { outputPackage } lines) := left
  rw [PenM.left, ran]
  exact List.nil_append _

/-- Where a fault ends the printing, only the last annotations can be missing. -/
theorem marks_left (c : Container) (outputPackage : String) :
    (c.print.left { outputPackage }).lines.filterMap Source.mark? <+:
      c.annotated.map (globalMark ·.1) := by
  obtain ⟨after, ran, _, first⟩ := (Begins.container c).left { outputPackage }
  obtain ⟨lines, made, rfl⟩ :=
    (PenM.writes_container outputPackage c.mended).exists_lines rfl ran
  have told := (Symbol.container c.mended).every_told outputPackage lines made
  have whole : (Pen.write { outputPackage } lines).lines = lines.map (·.printed "" []) :=
    List.nil_append _
  have marks := first.filterMap Source.mark?
  rw [whole, filterMap_mark?_printed told,
    (c.mended.tells_annotated outputPackage).filterMap_global? made, map_fst_annotated_mended,
    List.map_map] at marks
  exact marks

end Container

/-- What a symbol writes does not depend on the place of the pen, apart from the indentation of its
lines and the packages before the paths of its annotations, and it leaves the pen there. So the
annotations in the text of an import are those of its objects, its classes and what is left in its
packages. Each is made of the names of the packages around, of which the whole is none, and the
first line of what it is for is next. Where a fault ends the printing, only the last ones can be
missing. -/
theorem printed_in_place :
    (∀ (s : Symbol) (pen : Pen),
      match s.print.run { outputPackage := pen.outputPackage } with
      | .ok _ alone => s.print.run pen =
          .ok () { pen with lines := pen.lines ++ alone.lines.map (relocated pen.indent pen.path) }
      | .error fault _ => ∃ broken, s.print.run pen = .error fault broken) ∧
    ∀ (declarations : List Node) (outputPackage : String),
      let root := (importTree declarations).container
      let pen := root.print.left { outputPackage }
      (root.printed outputPackage).text = pen.text ∧
      (∀ path c, (path, c) ∈ root.annotated ↔
        ∃ around, root.Reaches around c ∧ c.isAnnotated = true ∧ path = around ++ [c.name]) ∧
      pen.lines.filterMap Source.mark? <+: root.annotated.map (globalMark ·.1) ∧
      ((root.printed outputPackage).fault = none →
        List.Forall₂ (fun shown written => written.1 = globalMark shown.1 ∧
            ∃ line ∈ written.2, shown.2.FirstLine (String.ofList (afterMargin line)))
          root.annotated (followed Source.mark? pen.lines)) := by
  refine ⟨Symbol.run_print, fun declarations outputPackage => ?_⟩
  intro root pen
  refine ⟨root.text_printed outputPackage, fun path c => Container.mem_annotated,
    root.marks_left outputPackage, fun whole => ?_⟩
  obtain ⟨lines, made⟩ := (Symbol.fault_printed _ _).mp whole
  have written : pen.lines = lines.map (·.printed "" []) := Container.lines_left made
  rw [written]
  exact followed_mark?_printed ((Symbol.container root).every_told outputPackage lines made)
    (root.tells_annotated outputPackage) made

/-- A class and the object beside it have one path, and what is left in each package comes after the
packages in it. -/
theorem printed_in_place_nested :
    let pen : Pen := { outputPackage := "p", indent := "  ", path := ["ns"], lines := ["x"] }
    let object : Symbol := .container ⟨.object "o", [.field "f" .number], {}, none⟩
    let made : Signature := ⟨[], [], some (.named "A" [])⟩
    let inner : List Node := [.varDecl "x" (some (.core "number")),
      .interfaceDecl (.plain "A") [] [] [],
      .varDecl "A" (some (.objectType [.constructorMember made])),
      .interfaceDecl (.plain "T") [] [] []]
    let root := (importTree [.moduleDecl "a" [.moduleDecl "b" inner, .varDecl "y" none]]).container
    object.print.run pen = .ok () { pen with lines := ["x", "", "  @js.native",
      "  @JSGlobal(\"ns.o\")", "  object o extends js.Object \x7b", "    var f: Double = js.native",
      "  \x7d"] } ∧
    (root.printed "p").fault = none ∧
    root.annotated.map Prod.fst = [["a", "b", "A"], ["a", "b", "A"], ["a", "b"], ["a"]] ∧
    (∃ c : Container, root.Reaches ["a", "b"] c ∧ c.name = "A") ∧
    List.Forall₂ (fun shown written => written.1 = globalMark shown.1 ∧
        ∃ line ∈ written.2, shown.2.FirstLine (String.ofList (afterMargin line)))
      root.annotated (followed Source.mark? (root.print.left { outputPackage := "p" }).lines) := by
  intro pen object made inner root
  obtain ⟨moved, imported⟩ := printed_in_place
  obtain ⟨_, paths, _, annotations⟩ :=
    imported [.moduleDecl "a" [.moduleDecl "b" inner, .varDecl "y" none]] "p"
  have whole : (root.printed "p").fault = none := by rfl
  have shown : root.annotated.map Prod.fst =
      [["a", "b", "A"], ["a", "b", "A"], ["a", "b"], ["a"]] := by decide +kernel
  have alone : object.print.run { outputPackage := "p" } = .ok () { outputPackage := "p", lines := [
    "", "@js.native", "@JSGlobal(\"o\")", "object o extends js.Object \x7b",
    "  var f: Double = js.native", "\x7d"] } := by rfl
  have here := moved object pen
  rw [alone] at here
  have lines : ["x"] ++ ["", "@js.native", "@JSGlobal(\"o\")", "object o extends js.Object \x7b",
      "  var f: Double = js.native", "\x7d"].map (relocated "  " ["ns"]) =
    ["x", "", "  @js.native", "  @JSGlobal(\"ns.o\")", "  object o extends js.Object \x7b",
      "    var f: Double = js.native", "  \x7d"] := by decide +kernel
  have first : (["a", "b", "A"] : List String) ∈ root.annotated.map Prod.fst := by
    rw [shown]
    exact .head _
  obtain ⟨⟨path, c⟩, listed, same⟩ := List.mem_map.mp first
  obtain ⟨around, reaches, _, cut⟩ := (paths path c).mp listed
  have both : around ++ [c.name] = ["a", "b"] ++ ["A"] := cut.symm.trans same
  obtain ⟨rfl, name⟩ := List.append_inj' both rfl
  refine ⟨?_, whole, shown, ⟨c, reaches, List.singleton_inj.mp name⟩, annotations whole⟩
  rw [← lines]
  exact here

end Facade
