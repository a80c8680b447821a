import Facade.Import

/-! A facade line by line. Its sheet says what each line is written for and how deep it stands,
wherever the whole is printed. Printing writes the lines of the sheet, with the indentation and
the path that the pen has, or it fails where the sheet has a fault. -/
namespace Facade
open PenM Source

/-- What has braces around it: a package, the object for what is left in a package, and an object, a
trait or a class. -/
inductive Block where
  | package (name : String)
  | loose (name : String)
  | definition (head : Head)

structure Opening where
  block : Block
  header : String

inductive LineContent where
  | plain (text : String)
  | global (path : List String)
  | opening (opening : Opening)
  | closing
  | member (symbol : Symbol) (text : String)

namespace LineContent

/-- The text of a line in the packages of a path. -/
def text (path : List String) : LineContent → String
  | .plain text => text
  | .global inner => globalMark (path ++ inner)
  | .opening first => first.header ++ " \x7b"
  | .closing => "\x7d"
  | .member _ text => text

def under (name : String) : LineContent → LineContent
  | .global inner => .global (name :: inner)
  | content => content

theorem text_under (name : String) (path : List String) (content : LineContent) :
    (content.under name).text path = content.text (path ++ [name]) := by
  cases content with
  | global inner => simp only [under, text, List.append_assoc, List.singleton_append]
  | _ => rfl

end LineContent

structure SheetLine where
  depth : Nat
  content : LineContent

namespace SheetLine

def margin : Nat → String
  | 0 => ""
  | depth + 1 => "  " ++ margin depth

/-- A line as it is printed: an empty one has no indentation. -/
def printed (indent : String) (path : List String) (line : SheetLine) : String :=
  let text := line.content.text path
  if text.isEmpty then "" else indent ++ margin line.depth ++ text

def deeper (line : SheetLine) : SheetLine := { line with depth := line.depth + 1 }

def under (name : String) (line : SheetLine) : SheetLine :=
  { line with content := line.content.under name }

theorem printed_deeper (indent : String) (path : List String) (line : SheetLine) :
    line.deeper.printed indent path = line.printed (indent ++ "  ") path := by
  simp only [printed, deeper, margin, String.append_assoc]

theorem printed_under (indent name : String) (path : List String) (line : SheetLine) :
    (line.under name).printed indent path = line.printed indent (path ++ [name]) := by
  simp only [printed, under, LineContent.text_under]

end SheetLine

abbrev Sheet := Except TypeFault (List SheetLine)

namespace Sheet

def lines (contents : List LineContent) : Sheet := .ok (contents.map fun content => ⟨0, content⟩)

def append (first second : Sheet) : Sheet := do
  let before ← first
  let after ← second
  return before ++ after

theorem append_assoc (first second third : Sheet) :
    (first.append second).append third = first.append (second.append third) := by
  cases first with
  | error fault => rfl
  | ok lines =>
    cases second with
    | error fault => rfl
    | ok more =>
      cases third with
      | error fault => rfl
      | ok last => exact congrArg Except.ok (List.append_assoc lines more last)

def deeper (sheet : Sheet) : Sheet := sheet.map (List.map (·.deeper))

def under (name : String) (sheet : Sheet) : Sheet := sheet.map (List.map (·.under name))

def enclosed (opening : Opening) (body : Sheet) : Sheet :=
  (lines [.opening opening]).append (body.append (lines [.closing]))

def block (opening : Opening) (body : Sheet) : Sheet := enclosed opening body.deeper

def definition (head : Head) (header : String) (empty : Bool) (body : Sheet) : Sheet :=
  if empty then lines [.plain header] else block ⟨.definition head, header⟩ body

/-- What is left in a package goes into an object of its own, if there is anything left. -/
def loose (name : String) (members : List Symbol) (mark : LineContent) (body : Sheet) : Sheet :=
  if members.any (!·.isContainer) then
    (lines [.plain "", .plain nativeMark, mark]).append
      (block ⟨.loose name, objectLine (Text.capitalize name)⟩ body)
  else lines []

def package (name : String) (members : List Symbol) (mark : LineContent)
    (standing body : Sheet) : Sheet :=
  (lines [.plain ""]).append (enclosed ⟨.package name, "package " ++ quoteName name⟩
    (standing.append ((loose name members mark body).append (lines [.plain ""]))))

end Sheet

mutual

def Symbol.sheet (outputPackage : String) : Symbol → Sheet
  | .comment text => Sheet.lines [.member (.comment text) (commentLine text)]
  | .field name type => do
      let text ← fieldLine name type
      Sheet.lines [.member (.field name type) text]
  | .method m => do
      let text? ← m.line?
      Sheet.lines (text?.toList.map (.member (.method m)))
  | .container c => c.sheet outputPackage

def Container.sheet (outputPackage : String) : Container → Sheet
  | ⟨.package name, members, _, _⟩ =>
      let inside (title : String) (mark : LineContent) : Sheet :=
        if members.isEmpty then Sheet.lines []
        else Sheet.package title members mark (Symbol.sheetStanding outputPackage members)
          (Symbol.sheetLoose outputPackage members)
      if name.isEmpty then
        (Sheet.lines ((fileHeader outputPackage).map .plain)).append
          (inside (rootName outputPackage) (.plain scopeMark))
      else (inside name (.global [])).under name
  | ⟨.object name, members, _, _⟩ =>
      (Sheet.lines [.plain "", .plain nativeMark, .global [name]]).append
        (Sheet.definition (.object name) (objectLine name) members.isEmpty
          (Symbol.sheetAll outputPackage members))
  | ⟨.classOrTrait info, members, _, _⟩ =>
      (Sheet.lines [.plain "", .plain nativeMark]).append
        ((Sheet.lines (if info.isTrait then [] else [.global [info.name]])).append do
          let header ← info.line
          Sheet.definition (.classOrTrait info) header members.isEmpty
            (Symbol.sheetAll outputPackage members))

def Symbol.sheetAll (outputPackage : String) : List Symbol → Sheet
  | [] => Sheet.lines []
  | s :: rest => (s.sheet outputPackage).append (Symbol.sheetAll outputPackage rest)

def Symbol.sheetStanding (outputPackage : String) : List Symbol → Sheet
  | [] => Sheet.lines []
  | s :: rest =>
      (if s.isContainer then s.sheet outputPackage else Sheet.lines []).append
        (Symbol.sheetStanding outputPackage rest)

def Symbol.sheetLoose (outputPackage : String) : List Symbol → Sheet
  | [] => Sheet.lines []
  | s :: rest =>
      (if s.isContainer then Sheet.lines [] else s.sheet outputPackage).append
        (Symbol.sheetLoose outputPackage rest)

end

/-! ## Printing a sheet -/

def Pen.write (pen : Pen) (lines : List SheetLine) : Pen :=
  { pen with lines := pen.lines ++ lines.map (·.printed pen.indent pen.path) }

theorem Pen.write_write (pen : Pen) (first second : List SheetLine) :
    (pen.write first).write second = pen.write (first ++ second) := by
  simp only [write, List.map_append, List.append_assoc]

/-- A pen ends up with the lines of a sheet and is otherwise as it was, or the fault of the sheet is
the end. -/
def Sheet.Left (pen : Pen) : Sheet → EStateM.Result TypeFault Pen Unit → Prop
  | .ok lines, result => result = .ok () (pen.write lines)
  | .error fault, result => ∃ broken, result = .error fault broken

/-- What an action writes, whatever the pen for this output package was used for before. -/
def PenM.Writes (outputPackage : String) (action : PenM Unit) (sheet : Sheet) : Prop :=
  ∀ pen : Pen, pen.outputPackage = outputPackage → sheet.Left pen (action.run pen)

namespace PenM

variable {outputPackage : String} {action next : PenM Unit} {sheet rest : Sheet}

theorem writes_nothing : Writes outputPackage (pure ()) (Sheet.lines []) := by
  intro pen _
  simp only [Sheet.lines, Sheet.Left, Pen.write, List.map_nil, List.append_nil, EStateM.run_pure]

theorem Writes.seq (first : Writes outputPackage action sheet)
    (second : Writes outputPackage next rest) :
    Writes outputPackage (action >>= fun _ => next) (sheet.append rest) := by
  intro pen own
  have before := first pen own
  rw [EStateM.run_bind]
  cases sheet with
  | error fault =>
    obtain ⟨broken, failed⟩ := before
    rw [failed]
    exact ⟨broken, rfl⟩
  | ok lines =>
    have after := second (pen.write lines) own
    have written : action.run pen = .ok () (pen.write lines) := before
    rw [written]
    cases rest with
    | error fault => exact after
    | ok more =>
      refine Eq.trans after ?_
      rw [Pen.write_write]

theorem Writes.nothing (writes : Writes outputPackage next rest) :
    Writes outputPackage next ((Sheet.lines []).append rest) := by
  have lifted := writes_nothing.seq writes
  rwa [pure_bind] at lifted

/-- What comes to its end has written all lines of its sheet. -/
theorem Writes.exists_lines (writes : Writes outputPackage action sheet) {pen after : Pen}
    (own : pen.outputPackage = outputPackage) (ran : action.run pen = .ok () after) :
    ∃ lines, sheet = .ok lines ∧ after = pen.write lines := by
  have left := writes pen own
  rw [ran] at left
  cases sheet with
  | error fault =>
    obtain ⟨broken, failed⟩ := left
    contradiction
  | ok lines =>
    have written : EStateM.Result.ok () after = .ok () (pen.write lines) := left
    exact ⟨lines, rfl, by simpa using written⟩

/-- What fails to be made is not written. -/
theorem Writes.make {α : Type} {made : Except TypeFault α} {use : α → PenM Unit}
    {sheets : α → Sheet} (each : ∀ whole, Writes outputPackage (use whole) (sheets whole)) :
    Writes outputPackage (PenM.make made >>= use) (made >>= sheets) := by
  intro pen own
  cases made with
  | error fault => exact ⟨pen, rfl⟩
  | ok whole => exact each whole pen own

theorem writes_line {content : LineContent} {text : String}
    (fixed : ∀ path, content.text path = text) :
    Writes outputPackage (line text) (Sheet.lines [content]) := by
  intro pen _
  simp only [Sheet.lines, Sheet.Left, List.map_cons, List.map_nil, Pen.write, SheetLine.printed,
    fixed, SheetLine.margin, String.append_empty, line, EStateM.run_modify, Pen.put]

theorem writes_plain (text : String) :
    Writes outputPackage (line text) (Sheet.lines [.plain text]) := writes_line fun _ => rfl

theorem writes_closing : Writes outputPackage (line "\x7d") (Sheet.lines [.closing]) :=
  writes_line fun _ => rfl

theorem Writes.cons {content : LineContent} {contents : List LineContent} {text : String}
    (fixed : ∀ path, content.text path = text)
    (writes : Writes outputPackage next ((Sheet.lines contents).append rest)) :
    Writes outputPackage (PenM.line text >>= fun _ => next)
      ((Sheet.lines (content :: contents)).append rest) := by
  have first : Writes outputPackage (PenM.line text) (Sheet.lines [content]) := writes_line fixed
  have whole := first.seq writes
  cases rest <;> exact whole

theorem writes_lines (texts : List String) :
    Writes outputPackage (PenM.lines texts) (Sheet.lines (texts.map .plain)) := by
  induction texts with
  | nil => exact writes_nothing
  | cons text texts ih => exact (writes_plain text).seq ih

/-- The output package of the pen is known. -/
theorem Writes.reads {use : Pen → PenM Unit}
    (writes : ∀ pen : Pen, pen.outputPackage = outputPackage →
      Writes outputPackage (use pen) sheet) : Writes outputPackage (get >>= use) sheet := by
  intro pen own
  rw [EStateM.run_bind, EStateM.run_get]
  exact writes pen own pen own

/-- The path of the pen is read when the line is written. -/
theorem Writes.global (writes : Writes outputPackage next rest) (inner : List String) :
    Writes outputPackage
      (get >>= fun pen => line (globalMark (pen.path ++ inner)) >>= fun _ => next)
      ((Sheet.lines [.global inner]).append rest) := by
  intro pen own
  have mark : (line (globalMark (pen.path ++ inner))).run pen =
      .ok () (pen.write [⟨0, .global inner⟩]) := by
    simp only [Pen.write, List.map_cons, List.map_nil, SheetLine.printed, LineContent.text,
      SheetLine.margin, String.append_empty, line, EStateM.run_modify, Pen.put]
  have after := writes (pen.write [⟨0, .global inner⟩]) own
  simp only [EStateM.run_bind, EStateM.run_get, mark]
  cases rest with
  | error fault => exact after
  | ok more =>
    refine Eq.trans after ?_
    rw [Pen.write_write]
    rfl

theorem Writes.indented (writes : Writes outputPackage action sheet) :
    Writes outputPackage (PenM.indented action) sheet.deeper := by
  intro pen own
  have inner := writes { pen with indent := pen.indent ++ "  " } own
  simp only [PenM.indented, EStateM.run_bind, EStateM.run_get, EStateM.run_modify]
  cases sheet with
  | error fault =>
    obtain ⟨broken, failed⟩ := inner
    rw [failed]
    exact ⟨broken, rfl⟩
  | ok lines =>
    have written : action.run { pen with indent := pen.indent ++ "  " } = .ok () _ := inner
    rw [written]
    simp only [Sheet.deeper, Except.map, Sheet.Left, Pen.write, List.map_map, Function.comp_def,
      SheetLine.printed_deeper]

/-- A package is left as it was entered, and what is written in between is written under it. -/
theorem Writes.package (writes : Writes outputPackage action sheet) (name : String) :
    Writes outputPackage (enterPackage name >>= fun _ => action >>= fun _ => leavePackage)
      (sheet.under name) := by
  intro pen own
  have inner := writes { pen with path := pen.path ++ [name] } own
  simp only [enterPackage, leavePackage, EStateM.run_bind, EStateM.run_modify]
  cases sheet with
  | error fault =>
    obtain ⟨broken, failed⟩ := inner
    rw [failed]
    exact ⟨broken, rfl⟩
  | ok lines =>
    have written : action.run { pen with path := pen.path ++ [name] } = .ok () _ := inner
    rw [written]
    simp only [Sheet.under, Except.map, Sheet.Left, Pen.write, List.map_map, Function.comp_def,
      SheetLine.printed_under, List.dropLast_concat]

theorem Writes.enclosed {opening : Opening} (writes : Writes outputPackage action sheet) :
    Writes outputPackage
      (line (opening.header ++ " \x7b") >>= fun _ => action >>= fun _ => line "\x7d")
      (Sheet.enclosed opening sheet) := by
  have opened : Writes outputPackage (line (opening.header ++ " \x7b"))
      (Sheet.lines [.opening opening]) := writes_line fun _ => rfl
  exact opened.seq (writes.seq writes_closing)

theorem writes_block (writes : Writes outputPackage action sheet) (opening : Opening) :
    Writes outputPackage (block opening.header false action) (Sheet.block opening sheet) :=
  writes.indented.enclosed

theorem writes_definition (writes : Writes outputPackage action sheet) (head : Head)
    (header : String) (empty : Bool) :
    Writes outputPackage (block header empty action)
      (Sheet.definition head header empty sheet) := by
  cases empty with
  | true => exact writes_plain header
  | false => exact writes_block writes ⟨.definition head, header⟩

/-- The mark of the object for what is left in a package, as it is read when it is written. -/
def Marks (outputPackage : String) (looseMark : PenM String) (mark : LineContent) : Prop :=
  ∀ {next : PenM Unit} {rest : Sheet}, Writes outputPackage next rest →
    Writes outputPackage (looseMark >>= fun text => line text >>= fun _ => next)
      ((Sheet.lines [mark]).append rest)

theorem marks_scope : Marks outputPackage (pure scopeMark) (.plain scopeMark) := by
  intro next rest writes
  rw [pure_bind]
  exact Writes.seq (writes_line fun _ => rfl) writes

theorem marks_global :
    Marks outputPackage (do return globalMark (← get).path) (.global []) := by
  intro next rest writes
  simpa only [bind_assoc, pure_bind, List.append_nil] using writes.global []

theorem writes_packageBlock {standing loose : PenM Unit} {above left : Sheet}
    {looseMark : PenM String} {mark : LineContent} (marks : Marks outputPackage looseMark mark)
    (first : Writes outputPackage standing above) (second : Writes outputPackage loose left)
    (name : String) (members : List Symbol) :
    Writes outputPackage (packageBlock name members looseMark standing loose)
      (Sheet.package name members mark above left) := by
  let opening : Opening := ⟨.package name, "package " ++ quoteName name⟩
  have opened : Writes outputPackage (line (opening.header ++ " \x7b"))
      (Sheet.lines [.opening opening]) := writes_line fun _ => rfl
  have closing : Writes outputPackage (blank >>= fun _ => line "\x7d")
      ((Sheet.lines [.plain ""]).append (Sheet.lines [.closing])) :=
    (writes_plain "").seq writes_closing
  unfold packageBlock Sheet.package Sheet.enclosed Sheet.loose
  simp only [Sheet.append_assoc]
  refine (writes_plain "").seq (opened.seq (first.seq ?_))
  split
  · rw [Sheet.append_assoc]
    refine Writes.cons (fun _ => rfl) (Writes.cons (fun _ => rfl) (marks ?_))
    exact (writes_block second ⟨.loose name, objectLine (Text.capitalize name)⟩).seq closing
  · exact .nothing closing

mutual

theorem writes_symbol (outputPackage : String) (s : Symbol) :
    Writes outputPackage s.print (s.sheet outputPackage) := by
  cases s with
  | comment text => exact writes_line fun _ => rfl
  | field name type => exact .make fun _ => writes_line fun _ => rfl
  | method m =>
    unfold Symbol.print Symbol.sheet
    refine .make fun text? => ?_
    cases text? with
    | none => exact writes_nothing
    | some text => exact writes_line fun _ => rfl
  | container c => exact writes_container outputPackage c

theorem writes_container (outputPackage : String) (c : Container) :
    Writes outputPackage c.print (c.sheet outputPackage) := by
  obtain ⟨head, members, index, companion⟩ := c
  cases head with
  | package name =>
    have standing := writes_standing outputPackage members
    have loose := writes_loose outputPackage members
    unfold Container.print Container.sheet
    dsimp only
    split
    · refine Writes.reads fun pen own => ?_
      rw [own]
      refine (writes_lines _).seq ?_
      split
      · exact writes_nothing
      · exact writes_packageBlock marks_scope standing loose (rootName outputPackage) members
    · split
      · have nothing : Writes outputPackage (pure ()) (Sheet.lines []) := writes_nothing
        have alone := nothing.package name
        rwa [pure_bind] at alone
      · exact (writes_packageBlock marks_global standing loose name members).package name
  | object name =>
    have body := writes_definition (writes_all outputPackage members) (.object name)
      (objectLine name) members.isEmpty
    unfold Container.print Container.sheet
    exact .cons (fun _ => rfl) (.cons (fun _ => rfl) (.global body [name]))
  | classOrTrait info =>
    have body := fun header => writes_definition (writes_all outputPackage members)
      (.classOrTrait info) header members.isEmpty
    unfold Container.print Container.sheet
    dsimp only
    refine .cons (fun _ => rfl) (.cons (fun _ => rfl) (.nothing ?_))
    split
    · exact .nothing (.make body)
    · exact .global (.make body) [info.name]

theorem writes_all (outputPackage : String) (members : List Symbol) :
    Writes outputPackage (Symbol.printAll members) (Symbol.sheetAll outputPackage members) := by
  cases members with
  | nil => exact writes_nothing
  | cons s rest => exact (writes_symbol outputPackage s).seq (writes_all outputPackage rest)

theorem writes_standing (outputPackage : String) (members : List Symbol) :
    Writes outputPackage (Symbol.printStanding members)
      (Symbol.sheetStanding outputPackage members) := by
  cases members with
  | nil => exact writes_nothing
  | cons s rest =>
    have first := writes_symbol outputPackage s
    have others := writes_standing outputPackage rest
    unfold Symbol.printStanding Symbol.sheetStanding
    dsimp only
    split
    · exact first.seq others
    · exact .nothing others

theorem writes_loose (outputPackage : String) (members : List Symbol) :
    Writes outputPackage (Symbol.printLoose members) (Symbol.sheetLoose outputPackage members) := by
  cases members with
  | nil => exact writes_nothing
  | cons s rest =>
    have first := writes_symbol outputPackage s
    have others := writes_loose outputPackage rest
    unfold Symbol.printLoose Symbol.sheetLoose
    dsimp only
    split
    · exact .nothing others
    · exact first.seq others

end

end PenM

/-- The text of a whole file. -/
def sheetText (lines : List SheetLine) : String :=
  String.join (lines.map fun line => line.printed "" [] ++ "\n")

theorem sheetText_append (first second : List SheetLine) :
    sheetText (first ++ second) = sheetText first ++ sheetText second := by
  simp only [sheetText, List.map_append, String.join_append]

theorem sheetText_cons (line : SheetLine) (lines : List SheetLine) :
    sheetText (line :: lines) = line.printed "" [] ++ "\n" ++ sheetText lines := by
  simp only [sheetText, List.map_cons, String.join_cons]

theorem Symbol.printed_of_sheet {s : Symbol} {outputPackage : String} {lines : List SheetLine}
    (made : s.sheet outputPackage = .ok lines) :
    s.printed outputPackage = ⟨sheetText lines, none⟩ := by
  have writes := PenM.writes_symbol outputPackage s { outputPackage } rfl
  rw [made] at writes
  have written : s.print { outputPackage } = .ok () (Pen.write { outputPackage } lines) := writes
  simp only [printed, written, Pen.write, Pen.text, sheetText, List.nil_append, List.map_map,
    Function.comp_def]

/-- Printing comes to its end exactly if the sheet can be made. -/
theorem Symbol.fault_printed (s : Symbol) (outputPackage : String) :
    (s.printed outputPackage).fault = none ↔ ∃ lines, s.sheet outputPackage = .ok lines := by
  constructor
  · intro whole
    have writes := PenM.writes_symbol outputPackage s { outputPackage } rfl
    cases made : s.sheet outputPackage with
    | ok lines => exact ⟨lines, rfl⟩
    | error fault =>
      rw [made] at writes
      obtain ⟨broken, failed⟩ := writes
      have failed' : s.print { outputPackage } = .error fault broken := failed
      simp only [printed, failed'] at whole
      contradiction
  · rintro ⟨lines, made⟩
    rw [printed_of_sheet made]

end Facade
