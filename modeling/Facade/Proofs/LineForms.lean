import Facade.Proofs.Texture
import Facade.Proofs.Transcript

/-! The forms that the lines of a facade have. Each line belongs to a container of the tree, and its
first word and its last character tell what it is: neither depends on the names in it. -/
namespace Facade
open Source (commentLine objectLine nativeMark scopeMark globalMark fileHeader rootName
  quoteName)

/-! ## The lines of a container -/

/-- What holds of all lines of a sheet. -/
def Sheet.Every (P : LineContent → Prop) (sheet : Sheet) : Prop :=
  ∀ lines, sheet = .ok lines → ∀ line ∈ lines, P line.content

namespace Sheet

variable {P : LineContent → Prop} {sheet rest : Sheet}

theorem every_lines {contents : List LineContent} (each : ∀ content ∈ contents, P content) :
    Every P (lines contents) := by
  rintro _ ⟨⟩ line listed
  obtain ⟨content, member, rfl⟩ := List.mem_map.mp listed
  exact each content member

theorem Every.append (first : Every P sheet) (second : Every P rest) :
    Every P (sheet.append rest) := by
  intro all made
  obtain ⟨front, here, back, there, rfl⟩ := append_eq_ok.mp made
  exact List.forall_mem_append.mpr ⟨first front here, second back there⟩

theorem Every.bind {α : Type} {made : Except TypeFault α} {sheets : α → Sheet}
    (each : ∀ whole, made = .ok whole → Every P (sheets whole)) : Every P (made >>= sheets) :=
  forall_lines_bind each

theorem Every.deeper (every : Every P sheet) : Every P sheet.deeper := by
  intro lines made
  obtain ⟨inner, here, rfl⟩ := map_eq_ok.mp made
  intro line listed
  obtain ⟨line, member, rfl⟩ := List.mem_map.mp listed
  exact every inner here line member

theorem Every.under (every : Every P sheet) {name : String}
    (kept : ∀ content, P content → P (content.under name)) : Every P (sheet.under name) := by
  intro lines made
  obtain ⟨inner, here, rfl⟩ := map_eq_ok.mp made
  intro line listed
  obtain ⟨line, member, rfl⟩ := List.mem_map.mp listed
  exact kept _ (every inner here line member)

theorem Every.enclosed {opening : Opening} (opens : P (.opening opening)) (closes : P .closing)
    (every : Every P sheet) : Every P (Sheet.enclosed opening sheet) := by
  have first : Every P (lines [.opening opening]) :=
    every_lines (List.forall_mem_singleton.mpr opens)
  have last : Every P (lines [.closing]) := every_lines (List.forall_mem_singleton.mpr closes)
  exact first.append (every.append last)

theorem Every.definition {head : Head} {header : String} (bare : P (.plain header))
    (opens : P (.opening ⟨.definition head, header⟩)) (closes : P .closing) (every : Every P sheet)
    (empty : Bool) : Every P (Sheet.definition head header empty sheet) := by
  unfold Sheet.definition
  split
  · exact every_lines (List.forall_mem_singleton.mpr bare)
  · exact every.deeper.enclosed opens closes

end Sheet

section Members

variable {P : LineContent → Prop} {outputPackage : String} {members : List Symbol}

theorem Symbol.every_all (each : ∀ s ∈ members, Sheet.Every P (s.sheet outputPackage)) :
    Sheet.Every P (Symbol.sheetAll outputPackage members) := by
  induction members with
  | nil => exact Sheet.every_lines nofun
  | cons s rest ih =>
    have others := ih fun t listed => each t (.tail _ listed)
    exact (each s (.head _)).append others

/-- A field, a method or a comment has one line at most. -/
theorem Symbol.every_leaf {s : Symbol} (leaf : s.isContainer = false)
    (each : ∀ text, s.WrittenAs text → P (.member s text)) :
    Sheet.Every P (s.sheet outputPackage) := by
  cases s with
  | comment body =>
    exact Sheet.every_lines (List.forall_mem_singleton.mpr (each _ rfl))
  | field name type =>
    apply Sheet.Every.bind
    intro text made
    exact Sheet.every_lines (List.forall_mem_singleton.mpr (each text made))
  | method m =>
    apply Sheet.Every.bind
    intro text? made
    apply Sheet.every_lines
    intro content listed
    obtain ⟨text, given, rfl⟩ := List.mem_map.mp listed
    obtain rfl := Option.mem_toList.mp given
    exact each text made
  | container d => contradiction

/-- The lines that a package writes around its members. -/
structure Sheet.Frames (P : LineContent → Prop) (title : String) (mark : LineContent) : Prop where
  blank : P (.plain "")
  native : P (.plain nativeMark)
  mark : P mark
  package : P (.opening ⟨.package title, "package " ++ quoteName title⟩)
  loose : P (.opening ⟨.loose title, objectLine (Text.capitalize title)⟩)
  closing : P .closing

theorem Sheet.Frames.every_inside {title : String} {mark : LineContent}
    (frames : Sheet.Frames P title mark)
    (each : ∀ s ∈ members, Sheet.Every P (s.sheet outputPackage)) :
    Sheet.Every P (Sheet.inside outputPackage title mark members) := by
  have kept (keep : Symbol → Bool) :
      Sheet.Every P (Symbol.sheetAll outputPackage (members.filter keep)) :=
    Symbol.every_all fun s listed => each s (List.mem_filter.mp listed).1
  have blank : Sheet.Every P (Sheet.lines [.plain ""]) :=
    Sheet.every_lines (List.forall_mem_singleton.mpr frames.blank)
  have three : ∀ content ∈ [.plain "", .plain nativeMark, mark], P content := by
    simp only [List.forall_mem_cons]
    exact ⟨frames.blank, frames.native, frames.mark, nofun⟩
  unfold Sheet.inside
  split
  · exact Sheet.every_lines nofun
  · refine blank.append (.enclosed frames.package frames.closing
      ((kept _).append (.append ?_ blank)))
    unfold Sheet.loose
    split
    · exact (Sheet.every_lines three).append
        ((kept _).deeper.enclosed frames.loose frames.closing)
    · exact Sheet.every_lines nofun

end Members

/-- The first line of a definition, without a brace. -/
def Container.Headed (c : Container) (header : String) : Prop :=
  match c.head with
  | .package _ => False
  | .object name => header = objectLine name
  | .classOrTrait info => info.line = .ok header

/-- The name that a package is written with. -/
def Source.packageTitle (outputPackage name : String) : String :=
  if name.isEmpty then rootName outputPackage else name

open Source (packageTitle)

/-- The lines that are written for a container itself, apart from annotations with a path. -/
inductive Container.Line (outputPackage : String) (c : Container) : LineContent → Prop where
  | blank : c.Line outputPackage (.plain "")
  | native : c.Line outputPackage (.plain nativeMark)
  | scope : c.Line outputPackage (.plain scopeMark)
  | file {text : String} : c.head = .package "" → text ∈ fileHeader outputPackage →
      c.Line outputPackage (.plain text)
  | package {name : String} : c.head = .package name → c.Line outputPackage
      (.opening ⟨.package (packageTitle outputPackage name),
        "package " ++ quoteName (packageTitle outputPackage name)⟩)
  | loose {name : String} : c.head = .package name → c.Line outputPackage
      (.opening ⟨.loose (packageTitle outputPackage name),
        objectLine (Text.capitalize (packageTitle outputPackage name))⟩)
  | bare {header : String} : c.Headed header → c.Line outputPackage (.plain header)
  | definition {header : String} : c.Headed header →
      c.Line outputPackage (.opening ⟨.definition c.head, header⟩)
  | closing : c.Line outputPackage .closing
  | member {s : Symbol} {text : String} : s ∈ c.members → s.WrittenAs text →
      c.Line outputPackage (.member s text)

namespace Container

variable {outputPackage : String} {c d : Container} {content : LineContent}

/-- An annotation with a path, or another line of a container inside. -/
def LineInside (outputPackage : String) (c : Container) (content : LineContent) : Prop :=
  (∃ path, content = .global path) ∨ ∃ d : Container, d.Inside c ∧ d.Line outputPackage content

theorem Line.inside (line : c.Line outputPackage content) : c.LineInside outputPackage content :=
  .inr ⟨c, .self c, line⟩

theorem LineInside.of_member (member : .container d ∈ c.members)
    (line : d.LineInside outputPackage content) : c.LineInside outputPackage content := by
  rcases line with path | ⟨e, inside, line⟩
  · exact .inl path
  · exact .inr ⟨e, .member member inside, line⟩

theorem LineInside.under (line : c.LineInside outputPackage content) (name : String) :
    c.LineInside outputPackage (content.under name) := by
  rcases line with ⟨path, rfl⟩ | ⟨d, inside, line⟩
  · exact .inl ⟨name :: path, rfl⟩
  · cases content with
    | global path => cases line
    | plain text | opening opening | closing | member s text => exact .inr ⟨d, inside, line⟩

theorem frames_inside {name : String} (head : c.head = .package name) {mark : LineContent}
    (line : c.LineInside outputPackage mark) :
    Sheet.Frames (c.LineInside outputPackage) (packageTitle outputPackage name) mark where
  blank := Line.blank.inside
  native := Line.native.inside
  mark := line
  package := (Line.package head).inside
  loose := (Line.loose head).inside
  closing := Line.closing.inside

/-- Every line of a sheet belongs to a container of the tree. -/
theorem every_sheet (outputPackage : String) (c : Container) :
    Sheet.Every (c.LineInside outputPackage) (c.sheet outputPackage) := by
  induction c using Container.induct with
  | step c ih =>
    have each : ∀ s ∈ c.members,
        Sheet.Every (c.LineInside outputPackage) (s.sheet outputPackage) := by
      intro s member
      cases s with
      | container d =>
        intro lines made line listed
        exact .of_member member (ih d member lines made line listed)
      | comment text | field name type | method m =>
        exact Symbol.every_leaf rfl fun text written => (Line.member member written).inside
    obtain ⟨head, members, index, companion⟩ := c
    have three (mark : LineContent)
        (line : LineInside outputPackage ⟨head, members, index, companion⟩ mark) :
        ∀ content ∈ [.plain "", .plain nativeMark, mark],
          LineInside outputPackage ⟨head, members, index, companion⟩ content := by
      simp only [List.forall_mem_cons]
      exact ⟨Line.blank.inside, Line.native.inside, line, nofun⟩
    cases head with
    | package name =>
      by_cases root : name = ""
      · subst root
        have inside := (frames_inside rfl Line.scope.inside).every_inside each
        rw [(sheet_package outputPackage "" members index companion).trans (if_pos rfl)]
        refine .append (Sheet.every_lines fun content listed => ?_) inside
        obtain ⟨text, member, rfl⟩ := List.mem_map.mp listed
        exact (Line.file rfl member).inside
      · have unnamed : ¬ name.isEmpty = true := by simpa using root
        have title : packageTitle outputPackage name = name := if_neg unnamed
        have inside := (frames_inside rfl (.inl ⟨[], rfl⟩)).every_inside each
        rw [title] at inside
        rw [(sheet_package outputPackage name members index companion).trans (if_neg unnamed)]
        exact inside.under fun content line => line.under name
    | object name =>
      have headed : Headed ⟨.object name, members, index, companion⟩ (objectLine name) := rfl
      unfold sheet
      exact (Sheet.every_lines (three _ (.inl ⟨[name], rfl⟩))).append
        (.definition (Line.bare headed).inside (Line.definition headed).inside Line.closing.inside
          (Symbol.every_all each) members.isEmpty)
    | classOrTrait info =>
      have mark : ∀ content ∈ if info.isTrait then [] else [.global [info.name]],
          LineInside outputPackage ⟨.classOrTrait info, members, index, companion⟩ content := by
        split
        · exact nofun
        · exact List.forall_mem_singleton.mpr (.inl ⟨_, rfl⟩)
      have two : ∀ content ∈ [.plain "", .plain nativeMark],
          LineInside outputPackage ⟨.classOrTrait info, members, index, companion⟩ content := by
        simp only [List.forall_mem_cons]
        exact ⟨Line.blank.inside, Line.native.inside, nofun⟩
      unfold sheet
      apply (Sheet.every_lines two).append
      apply (Sheet.every_lines mark).append
      apply Sheet.Every.bind
      intro header made
      have headed : Headed ⟨.classOrTrait info, members, index, companion⟩ header := made
      exact .definition (Line.bare headed).inside (Line.definition headed).inside
        Line.closing.inside (Symbol.every_all each) members.isEmpty

end Container

/-! ## Reading a line -/

namespace Source

/-- A line without its indentation. -/
def afterMargin (line : String) : List Char := line.toList.dropWhile (· == ' ')

def opensBlock (line : String) : Bool := [' ', '\x7b'].isSuffixOf line.toList

def closesBlock (line : String) : Bool := afterMargin line == ['\x7d']

def beginsWith (words : List String) (text : List Char) : Bool :=
  words.any (·.toList.isPrefixOf text)

/-- The lines of fields, of methods and constructors, of accessors and of comments. -/
def memberWords : List String := ["var ", "def ", "@JSBracketAccess def ", "/* "]

/-- The lines that are written around members. -/
def frameWords : List String :=
  ["package ", "@js.native", "@JSGlobal", "object ", "trait ", "class "]

/-- All lines but those of members that are neither empty nor braces. -/
def otherWords : List String := "import " :: frameWords

/-- The text of a line that is written for a field, a method or a comment. -/
def memberText? (line : String) : Option String :=
  if beginsWith memberWords (afterMargin line) then some (String.ofList (afterMargin line))
  else none

/-- A text that does not end like the first line of a block. -/
def Shut (text : String) : Prop := text.toList.getLast? ≠ some '\x7b'

instance : DecidablePred Shut := fun _ => inferInstanceAs (Decidable (_ ≠ _))

theorem beginsWith_iff {words : List String} {text : List Char} :
    beginsWith words text = true ↔ ∃ word ∈ words, word.toList <+: text := by
  simp only [beginsWith, List.any_eq_true, List.isPrefixOf_iff_prefix]

theorem beginsWith_append {words : List String} {first : String}
    (begins : beginsWith words first.toList = true) (rest : String) :
    beginsWith words (first ++ rest).toList = true := by
  obtain ⟨word, member, before⟩ := beginsWith_iff.mp begins
  rw [beginsWith_iff, String.toList_append]
  exact ⟨word, member, before.trans (List.prefix_append _ _)⟩

theorem beginsWith_mono {words more : List String} {text : List Char} (included : words ⊆ more)
    (begins : beginsWith words text = true) : beginsWith more text = true :=
  List.any_eq_true.mpr ((List.any_eq_true.mp begins).imp fun _ => And.imp_left (included ·))

/-- A text begins with words of one list only if these differ before the end of either. -/
theorem beginsWith_apart {words others : List String} {text : List Char}
    (begins : beginsWith words text = true)
    (apart : ∀ v ∈ words, ∀ w ∈ others, ¬ v.toList <+: w.toList ∧ ¬ w.toList <+: v.toList) :
    beginsWith others text = false := by
  rw [Bool.eq_false_iff]
  intro also
  obtain ⟨v, first, before⟩ := beginsWith_iff.mp begins
  obtain ⟨w, second, before'⟩ := beginsWith_iff.mp also
  obtain ⟨shorter, longer⟩ := apart v first w second
  rcases List.prefix_or_prefix_of_prefix before before' with inside | inside
  · exact shorter inside
  · exact longer inside

theorem beginsWith_objectLine {words : List String}
    (object : beginsWith words "object ".toList = true) (name : String) :
    beginsWith words (objectLine name).toList = true := by
  rw [objectLine, String.append_assoc]
  exact beginsWith_append object _

theorem shut_append {first second : String} (some : second ≠ "") (shut : Shut second) :
    Shut (first ++ second) := by
  have last : second.toList.getLast?.isSome := by
    rw [List.getLast?_isSome]
    exact fun none => some (String.toList_eq_nil_iff.mp none)
  unfold Shut at *
  rwa [String.toList_append, List.getLast?_append, Option.or_of_isSome last]

theorem shut_texture : Texture Shut where
  fixed _ := And.right
  append {first second} before after := by
    by_cases some : second = ""
    · subst second
      rwa [String.append_empty]
    · exact shut_append some after

theorem brace_not_mem_of_plainTail {word : List Char} (plain : plainTail word = true) :
    '\x7b' ∉ word := by
  induction word with
  | nil => nofun
  | cons c word ih =>
    rw [List.mem_cons, not_or]
    rcases plainTail_cons.mp plain with ⟨rfl, rfl⟩ | ⟨inside, others⟩
    · decide
    · refine ⟨?_, ih others⟩
      rintro rfl
      contradiction

theorem shut_quoteName (name : String) : Shut (quoteName name) := by
  rcases toList_quoteName name with quoted | ⟨bare, plain⟩
  · rw [Shut, quoted, ← List.cons_append, List.getLast?_concat]
    decide
  · intro last
    rw [bare] at last
    exact brace_not_mem_of_plainTail (plainTail_of_plainWord plain) (List.mem_of_getLast? last)

theorem keepsNames_shut (words : List String) : KeepsNames Shut words := fun word _ =>
  shut_quoteName word

end Source

open Source (afterMargin opensBlock closesBlock beginsWith memberWords frameWords otherWords
  memberText? Shut beginsWith_append beginsWith_mono beginsWith_apart beginsWith_objectLine
  shut_append)

namespace LineContent

def isOpening : LineContent → Bool
  | .opening _ => true
  | _ => false

def isClosing : LineContent → Bool
  | .closing => true
  | _ => false

def memberText? : LineContent → Option String
  | .member _ text => some text
  | _ => none

/-- A line that can be read: it begins with one of these words if it is not the line of a member,
and only the first line of a block ends with an opening brace. -/
def Formed (words : List String) : LineContent → Prop
  | .plain text => text = "" ∨ beginsWith words text.toList = true ∧ Shut text
  | .opening first => beginsWith words first.header.toList = true
  | .member _ text => beginsWith memberWords text.toList = true ∧ Shut text
  | .global _ | .closing => True

theorem Formed.other {content : LineContent} (formed : content.Formed frameWords) :
    content.Formed otherWords := by
  have more {text : List Char} (begins : beginsWith frameWords text = true) :
      beginsWith otherWords text = true :=
    beginsWith_mono (List.subset_cons_self _ _) begins
  cases content with
  | plain text => exact Or.imp_right (And.imp_left more) formed
  | opening first => exact more formed
  | member s text => exact formed
  | global path => trivial
  | closing => trivial

end LineContent

namespace Container

variable {outputPackage : String} {c : Container}

theorem Headed.begins {header : String} (headed : c.Headed header) :
    beginsWith ["object ", "trait ", "class "] header.toList = true := by
  rw [Headed] at headed
  split at headed
  · contradiction
  · subst header
    exact beginsWith_objectLine (by decide) _
  · obtain ⟨typeParams, _, headed⟩ := bind_eq_ok.mp headed
    obtain ⟨parents, _, headed⟩ := bind_eq_ok.mp headed
    obtain rfl := Except.ok.inj headed
    simp only [String.append_assoc]
    split <;> exact beginsWith_append (by decide) _

theorem Headed.shut {header : String} (headed : c.Headed header) : Shut header := by
  rw [Headed] at headed
  split at headed
  · contradiction
  · next name _ =>
    subst header
    exact Source.shut_texture.object (Source.shut_quoteName name)
  · next info head =>
    exact Source.shut_texture.classOrTrait (Source.keepsNames_shut c.words) head headed

theorem Headed.formed {header : String} (headed : c.Headed header) :
    beginsWith frameWords header.toList = true ∧ Shut header :=
  ⟨beginsWith_mono (by decide) headed.begins, headed.shut⟩

theorem shut_commentLine (body : String) : Shut (commentLine body) :=
  shut_append (by decide) (by decide)

theorem beginsWith_of_writtenAs {s : Symbol} {text : String} (written : s.WrittenAs text) :
    beginsWith memberWords text.toList = true := by
  cases s with
  | comment body =>
    obtain rfl : text = commentLine body := written
    unfold commentLine
    rw [String.append_assoc]
    exact beginsWith_append (by decide) _
  | field name type =>
    obtain ⟨inner, _, rfl⟩ := map_eq_ok.mp written
    simp only [String.append_assoc]
    exact beginsWith_append (by decide) _
  | method m =>
    change m.line? = .ok (some text) at written
    unfold Method.line? at written
    split at written
    · split at written
      · cases written
      · obtain ⟨params, _, same⟩ := map_eq_ok.mp written
        obtain rfl := Option.some.inj same
        rw [String.append_assoc]
        exact beginsWith_append (by decide) _
    · obtain ⟨line, made, same⟩ := map_eq_ok.mp written
      obtain rfl := Option.some.inj same
      obtain ⟨typeParams, _, made⟩ := bind_eq_ok.mp made
      obtain ⟨params, _, made⟩ := bind_eq_ok.mp made
      obtain ⟨result, _, made⟩ := bind_eq_ok.mp made
      obtain rfl := Except.ok.inj made
      have words : beginsWith memberWords
          ((if m.bracket then "@JSBracketAccess " else "") ++ "def ").toList = true := by
        cases m.bracket <;> decide
      simp only [String.append_assoc] at words ⊢
      rw [← String.append_assoc]
      exact beginsWith_append words _
  | container d => contradiction

theorem formed_member {s : Symbol} (listed : s ∈ c.members) {text : String}
    (written : s.WrittenAs text) (words : List String) :
    (LineContent.member s text).Formed words := by
  refine ⟨beginsWith_of_writtenAs written, ?_⟩
  exact Source.shut_texture.written (Source.keepsNames_shut c.words) listed
    (fun body _ => shut_commentLine body) written

theorem mem_fileHeader {text : String} (listed : text ∈ fileHeader outputPackage) :
    text = "package " ++ ".".intercalate ((Source.enclosingParts outputPackage).map quoteName) ∨
      text = "" ∨ text = "import scala.scalajs.js" ∨ text = "import js.annotation._" := by
  unfold fileHeader at listed
  dsimp only at listed
  split at listed
  · exact .inr (by simpa using listed)
  · simpa using listed

theorem formed_fileHeader {text : String} (listed : text ∈ fileHeader outputPackage) :
    (LineContent.plain text).Formed otherWords := by
  rcases mem_fileHeader listed with rfl | rfl | rfl | rfl
  · refine .inr ⟨beginsWith_append (by decide) _, ?_⟩
    exact Source.shut_texture.append (by decide)
      (Source.shut_texture.path (Source.keepsNames_shut _))
  · exact .inl rfl
  · exact .inr (by decide)
  · exact .inr (by decide)

/-- Only the first lines of a file are not among the frames of members. -/
theorem Line.formed {content : LineContent} (line : c.Line outputPackage content) :
    content.Formed frameWords ∨
      c.head = .package "" ∧ ∃ text ∈ fileHeader outputPackage, content = .plain text := by
  cases line with
  | blank => exact .inl (.inl rfl)
  | native => exact .inl (.inr (by decide))
  | scope => exact .inl (.inr (by decide))
  | file root listed => exact .inr ⟨root, _, listed, rfl⟩
  | package _ => exact .inl (beginsWith_append (by decide : beginsWith frameWords _ = true) _)
  | loose _ => exact .inl (beginsWith_objectLine (by decide) _)
  | bare headed => exact .inl (.inr headed.formed)
  | definition headed => exact .inl headed.formed.1
  | closing => exact .inl trivial
  | member listed written => exact .inl (formed_member listed written _)

theorem LineInside.formed {content : LineContent} (line : c.LineInside outputPackage content) :
    content.Formed otherWords := by
  rcases line with ⟨path, rfl⟩ | ⟨d, _, line⟩
  · trivial
  · rcases line.formed with formed | ⟨_, text, listed, rfl⟩
    · exact formed.other
    · exact formed_fileHeader listed

end Container

/-! ## Reading printed lines -/

namespace SheetLine

/-- An indentation of blanks. -/
def Blank (indent : String) : Prop := ∀ c ∈ indent.toList, (c == ' ') = true

variable {indent : String} {path : List String} {line : SheetLine}

theorem blank_margin (depth : Nat) : Blank (margin depth) := by
  induction depth with
  | zero => nofun
  | succ depth ih =>
    intro c member
    rw [margin, String.toList_append, List.mem_append] at member
    rcases member with first | rest
    · simp at first
      simp [first]
    · exact ih c rest

theorem printed_of_ne (indent : String) (depth : Nat) (content : LineContent)
    (some : content.text path ≠ "") :
    printed indent path ⟨depth, content⟩ = indent ++ margin depth ++ content.text path := by
  have full : ¬ (content.text path).isEmpty = true := by simpa using some
  simp only [printed, if_neg full]

theorem afterMargin_printed (blank : Blank indent) (depth : Nat) {content : LineContent}
    (solid : beginsWith [" "] (content.text path).toList = false) :
    afterMargin (printed indent path ⟨depth, content⟩) = (content.text path).toList := by
  by_cases none : content.text path = ""
  · simp [printed, none, afterMargin]
  · have front : ∀ c ∈ indent.toList ++ (margin depth).toList, (c == ' ') = true :=
      List.forall_mem_append.mpr ⟨blank, blank_margin depth⟩
    rw [printed_of_ne indent depth content none, afterMargin, String.toList_append,
      String.toList_append, List.dropWhile_append_of_pos front]
    cases chars : (content.text path).toList with
    | nil => rfl
    | cons c rest =>
      rw [chars] at solid
      have visible : ¬ (c == ' ') = true := by
        intro same
        obtain rfl := beq_iff_eq.mp same
        simp [beginsWith] at solid
      exact List.dropWhile_cons_of_neg visible

theorem opensBlock_eq_false {text : String} (shut : Shut text) : opensBlock text = false := by
  rw [Bool.eq_false_iff]
  intro suffix
  obtain ⟨front, same⟩ := List.isSuffixOf_iff_suffix.mp suffix
  apply shut
  rw [← same, List.getLast?_append]
  rfl

theorem opensBlock_append (header : String) : opensBlock (header ++ " \x7b") = true := by
  rw [opensBlock, List.isSuffixOf_iff_suffix, String.toList_append]
  exact List.suffix_append _ _

/-- What is read off a line of a content: its text, and what its first word and its last character
say. -/
structure Reads (content : LineContent) (path : List String) (line : String) : Prop where
  opens : opensBlock line = content.isOpening
  closes : closesBlock line = content.isClosing
  member : memberText? line = content.memberText?
  text : afterMargin line = (content.text path).toList

section Reads

variable {content : LineContent}

/-- A line that begins with a word is read from there, and it is no brace. -/
theorem reads_word (blank : Blank indent) (depth : Nat)
    (begins : beginsWith (otherWords ++ memberWords) (content.text path).toList = true)
    (opens : opensBlock (indent ++ margin depth ++ content.text path) = content.isOpening)
    (unclosing : content.isClosing = false)
    (member : beginsWith memberWords (content.text path).toList = content.memberText?.isSome)
    (text : ∀ text ∈ content.memberText?, text = content.text path) :
    Reads content path (printed indent path ⟨depth, content⟩) := by
  have visible := beginsWith_apart begins (by decide : ∀ v ∈ otherWords ++ memberWords,
    ∀ w ∈ [" "], ¬ v.toList <+: w.toList ∧ ¬ w.toList <+: v.toList)
  have solid := beginsWith_apart begins (by decide : ∀ v ∈ otherWords ++ memberWords,
    ∀ w ∈ ["\x7d"], ¬ v.toList <+: w.toList ∧ ¬ w.toList <+: v.toList)
  have some : content.text path ≠ "" := by
    intro none
    rw [none] at begins
    contradiction
  have same := afterMargin_printed blank depth visible
  refine ⟨?_, ?_, ?_, same⟩
  · rw [printed_of_ne indent depth content some, opens]
  · rw [closesBlock, same, unclosing, beq_eq_false_iff_ne]
    intro brace
    rw [brace] at solid
    contradiction
  · rw [memberText?, same, member, String.ofList_toList]
    cases given : content.memberText? with
    | none => rfl
    | some own => rw [text own given]; rfl

/-- The words of members stand apart from all others. -/
theorem reads_other (blank : Blank indent) (depth : Nat)
    (begins : beginsWith otherWords (content.text path).toList = true)
    (opens : opensBlock (indent ++ margin depth ++ content.text path) = content.isOpening)
    (unclosing : content.isClosing = false) (free : content.memberText? = none) :
    Reads content path (printed indent path ⟨depth, content⟩) := by
  have apart := beginsWith_apart begins (by decide : ∀ v ∈ otherWords, ∀ w ∈ memberWords,
    ¬ v.toList <+: w.toList ∧ ¬ w.toList <+: v.toList)
  have all : beginsWith (otherWords ++ memberWords) (content.text path).toList = true :=
    beginsWith_mono (List.subset_append_left _ _) begins
  refine reads_word blank depth all opens unclosing ?_ ?_
  · rw [apart, free]
    rfl
  · rw [free]
    nofun

theorem reads_closing (blank : Blank indent) (depth : Nat) :
    Reads .closing path (printed indent path ⟨depth, .closing⟩) := by
  have brace : LineContent.closing.text path = "\x7d" := rfl
  have text : afterMargin (printed indent path ⟨depth, .closing⟩) = "\x7d".toList :=
    afterMargin_printed blank depth (by rw [brace]; decide)
  refine ⟨?_, ?_, ?_, text⟩
  · rw [printed_of_ne indent depth .closing (by rw [brace]; decide), brace]
    exact opensBlock_eq_false (shut_append (by decide) (by decide))
  · rw [closesBlock, text]
    decide
  · rw [memberText?, text]
    decide

/-- Whatever the names in a line are, it reads as what it is. -/
theorem reads_printed (formed : line.content.Formed otherWords) (blank : Blank indent)
    (path : List String) : Reads line.content path (line.printed indent path) := by
  obtain ⟨depth, content⟩ := line
  cases content with
  | plain text =>
    rcases formed with rfl | ⟨begins, shut⟩
    · exact ⟨by rfl, by rfl, by rfl, by rfl⟩
    · have some : text ≠ "" := by
        rintro rfl
        contradiction
      exact reads_other blank depth begins (opensBlock_eq_false (shut_append some shut)) rfl rfl
  | global inner =>
    have begins : beginsWith otherWords (globalMark (path ++ inner)).toList = true := by
      unfold globalMark
      rw [String.append_assoc]
      exact beginsWith_append (by decide) _
    have shut : Shut (indent ++ margin depth ++ globalMark (path ++ inner)) := by
      unfold globalMark
      rw [← String.append_assoc]
      exact shut_append (by decide) (by decide)
    exact reads_other blank depth begins (opensBlock_eq_false shut) rfl rfl
  | opening first =>
    have opens : opensBlock (indent ++ margin depth ++ (first.header ++ " \x7b")) = true := by
      rw [← String.append_assoc]
      exact opensBlock_append _
    exact reads_other blank depth (beginsWith_append formed _) opens rfl rfl
  | closing => exact reads_closing blank depth
  | member s text =>
    obtain ⟨begins, shut⟩ := formed
    have some : text ≠ "" := by
      rintro rfl
      contradiction
    refine reads_word blank depth (beginsWith_mono (List.subset_append_right _ _) begins)
      (opensBlock_eq_false (shut_append some shut)) rfl begins ?_
    rintro _ ⟨⟩
    rfl

end Reads

end SheetLine
end Facade
