import Facade.Proofs.Annotations
import Mathlib.Data.List.Forall2

/-! The layout of a facade. Its text has the structure of the tree: the imports stand at the top and
nowhere else, the braces at the ends of lines match, and the lines of fields, methods and comments
are those of the tree in the order of its parts. -/
namespace Facade
open Source (afterMargin opensBlock closesBlock beginsWith beginsWith_apart beginsWith_append
  memberText? memberWords frameWords otherWords Unbroken unbroken_append unbroken_texture
  unbroken_quoteName fileHeader rootName packageTitle globalMark)

/-! ## Braces -/

/-- The number of open blocks after a line, if it closes none that is not open. -/
def nested? (opens closes : Bool) (depth : Nat) : Option Nat :=
  if opens then some (depth + 1)
  else if closes then if depth = 0 then none else some (depth - 1)
  else some depth

namespace Source

def nest? (depth : Nat) (line : String) : Option Nat :=
  nested? (opensBlock line) (closesBlock line) depth

/-- The number of open blocks after all of these lines. -/
def depthAfter (depth : Nat) (lines : List String) : Option Nat := lines.foldlM nest? depth

end Source

namespace SheetLine

def nest? (depth : Nat) (line : SheetLine) : Option Nat :=
  nested? line.content.isOpening line.content.isClosing depth

theorem nest?_flat {content : LineContent}
    (flat : content.isOpening = false ∧ content.isClosing = false) (depth : Nat) :
    nest? depth ⟨0, content⟩ = some depth := by
  rw [nest?, flat.1, flat.2]
  rfl

theorem nest?_opening (opening : Opening) (depth : Nat) :
    nest? depth ⟨0, .opening opening⟩ = some (depth + 1) := rfl

theorem nest?_closing (depth : Nat) : nest? (depth + 1) ⟨0, .closing⟩ = some depth := rfl

end SheetLine

namespace Sheet

variable {sheet rest : Sheet}

/-- After the lines of a sheet as many blocks are open as before, and none is closed in between that
was open before. -/
def Balanced (sheet : Sheet) : Prop :=
  ∀ lines, sheet = .ok lines → ∀ depth, lines.foldlM SheetLine.nest? depth = some depth

theorem balanced_lines {contents : List LineContent}
    (flat : ∀ content ∈ contents, content.isOpening = false ∧ content.isClosing = false) :
    Balanced (lines contents) := by
  rintro _ ⟨⟩ depth
  induction contents with
  | nil => rfl
  | cons content contents ih =>
    obtain ⟨first, others⟩ := List.forall_mem_cons.mp flat
    rw [List.map_cons, List.foldlM_cons, SheetLine.nest?_flat first]
    exact ih others

theorem Balanced.append (first : Balanced sheet) (second : Balanced rest) :
    Balanced (sheet.append rest) := by
  intro all made depth
  obtain ⟨front, here, back, there, rfl⟩ := append_eq_ok.mp made
  rw [List.foldlM_append, first front here]
  exact second back there depth

theorem Balanced.map {f : SheetLine → SheetLine} (kept : ∀ depth line,
    (f line).nest? depth = line.nest? depth) (balanced : Balanced sheet) :
    Balanced (sheet.map (List.map f)) := by
  intro lines made depth
  obtain ⟨inner, here, rfl⟩ := map_eq_ok.mp made
  rw [List.foldlM_map]
  simp only [kept]
  exact balanced inner here depth

theorem Balanced.deeper (balanced : Balanced sheet) : Balanced sheet.deeper :=
  balanced.map fun _ _ => rfl

theorem Balanced.enclosed {opening : Opening} (balanced : Balanced sheet) :
    Balanced (Sheet.enclosed opening sheet) := by
  intro all made depth
  obtain ⟨body, inside, rfl⟩ := enclosed_eq_ok.mp made
  rw [List.foldlM_cons, SheetLine.nest?_opening, Option.bind_eq_bind, Option.bind_some,
    List.foldlM_append, balanced body inside, Option.bind_eq_bind, Option.bind_some,
    List.foldlM_cons, SheetLine.nest?_closing]
  rfl

theorem balanced_rules : Rules fun _ sheet => Balanced sheet where
  flat {outer contents} flat := by
    apply balanced_lines
    intro content listed
    have here := List.all_eq_true.mp flat content listed
    cases content with
    | plain text | global path => exact ⟨rfl, rfl⟩
    | opening opening | closing | member s text => contradiction
  append := .append
  deeper := .deeper
  under balanced name := balanced.map fun depth line => by
    obtain ⟨_, content⟩ := line
    cases content <;> rfl
  enclosed := .enclosed

end Sheet

/-- A field, a method or a comment has no braces. -/
theorem Symbol.balanced_leaf {s : Symbol} (leaf : s.isContainer = false) (outputPackage : String) :
    (s.sheet outputPackage).Balanced := by
  cases s with
  | comment body => exact Sheet.balanced_lines (List.forall_mem_singleton.mpr ⟨rfl, rfl⟩)
  | field name type =>
    exact Sheet.forall_lines_bind fun text _ =>
      Sheet.balanced_lines (List.forall_mem_singleton.mpr ⟨rfl, rfl⟩)
  | method m =>
    refine Sheet.forall_lines_bind fun text? _ => Sheet.balanced_lines ?_
    intro content listed
    obtain ⟨text, _, rfl⟩ := List.mem_map.mp listed
    exact ⟨rfl, rfl⟩
  | container c => contradiction

/-- All blocks of a container are closed where its sheet ends. -/
theorem Container.balanced_sheet (outputPackage : String) (c : Container) :
    (c.sheet outputPackage).Balanced := by
  refine Sheet.balanced_rules.container outputPackage c [] fun d _ => ?_
  constructor
  · intro s _ leaf _ _ _
    exact s.balanced_leaf leaf outputPackage
  · intro info _ _ sheets each
    exact Sheet.forall_lines_bind each

/-! ## Line breaks -/

namespace Source

theorem unbroken_rootName {outputPackage : String}
    (segments : ∀ part ∈ parts outputPackage, Unbroken part) : Unbroken (rootName outputPackage) := by
  unfold rootName
  cases last : (parts outputPackage).getLast? with
  | none => decide
  | some part => exact segments part (List.mem_of_getLast? last)

theorem unbroken_fileHeader {outputPackage text : String}
    (segments : ∀ part ∈ parts outputPackage, Unbroken part)
    (listed : text ∈ fileHeader outputPackage) : Unbroken text := by
  have outer : KeepsNames Unbroken (enclosingParts outputPackage) := fun part member =>
    unbroken_quoteName.mpr (segments part ((List.dropLast_sublist _).subset member))
  rcases Container.mem_fileHeader listed with rfl | rfl | rfl | rfl
  · exact unbroken_append.mpr ⟨by decide, unbroken_texture.path outer⟩
  · decide
  · decide
  · decide

end Source

namespace Container

variable {outputPackage : String} {c : Container} {content : LineContent}

theorem unbroken_packageTitle {name : String} (own : Unbroken name)
    (segments : ∀ part ∈ Source.parts outputPackage, Unbroken part) :
    Unbroken (packageTitle outputPackage name) := by
  unfold packageTitle
  split
  · exact Source.unbroken_rootName segments
  · exact own

theorem Headed.unbroken {header : String} (headed : c.Headed header)
    (words : ∀ word ∈ c.words, Unbroken word) : Unbroken header := by
  have keeps : KeepsNames Unbroken c.words := fun word listed =>
    unbroken_quoteName.mpr (words word listed)
  unfold Headed at headed
  split at headed
  · contradiction
  · next name head =>
    have own : c.name = name := by rw [Container.name, Container.key, head]; rfl
    subst header
    exact unbroken_texture.object (own ▸ keeps _ c.name_mem_words)
  · next info head => exact unbroken_texture.classOrTrait keeps head headed

/-- A line is broken only where a name, a comment or the output package is. -/
theorem Line.unbroken (line : c.Line outputPackage content)
    (words : ∀ word ∈ c.words, Unbroken word)
    (segments : ∀ part ∈ Source.parts outputPackage, Unbroken part) (path : List String) :
    Unbroken (content.text path) := by
  have keeps : KeepsNames Unbroken c.words := fun word listed =>
    unbroken_quoteName.mpr (words word listed)
  have title {name : String} (head : c.head = .package name) :
      Unbroken (packageTitle outputPackage name) := by
    have own : c.name = name := by rw [Container.name, Container.key, head]; rfl
    exact unbroken_packageTitle (own ▸ words _ c.name_mem_words) segments
  have brace : Unbroken " \x7b" := by decide
  cases line with
  | blank => exact (by decide : Unbroken "")
  | native => exact (by decide : Unbroken Source.nativeMark)
  | scope => exact (by decide : Unbroken Source.scopeMark)
  | file _ listed => exact Source.unbroken_fileHeader segments listed
  | package head =>
    refine unbroken_append.mpr ⟨unbroken_append.mpr ⟨by decide, ?_⟩, brace⟩
    exact unbroken_quoteName.mpr (title head)
  | loose head =>
    refine unbroken_append.mpr ⟨unbroken_texture.object ?_, brace⟩
    exact unbroken_quoteName.mpr (Text.unbroken_capitalize (title head))
  | bare headed => exact headed.unbroken words
  | definition headed => exact unbroken_append.mpr ⟨headed.unbroken words, brace⟩
  | closing => exact (by decide : Unbroken "\x7d")
  | member listed written =>
    refine unbroken_texture.written keeps listed ?_ written
    rintro body rfl
    exact Source.unbroken_commentLine (words body (words_subset_of_mem listed (.head _)))

end Container

namespace SheetLine

variable {line : SheetLine} {indent : String} {path : List String}

theorem unbroken_of_blank (blank : Blank indent) : Unbroken indent := by
  intro broken
  have newline := blank _ broken
  contradiction

theorem unbroken_printed (blank : Blank indent) (unbroken : Unbroken (line.content.text path)) :
    Unbroken (line.printed indent path) := by
  unfold printed
  dsimp only
  split
  · decide
  · exact unbroken_append.mpr ⟨unbroken_append.mpr
      ⟨unbroken_of_blank blank, unbroken_of_blank (blank_margin line.depth)⟩, unbroken⟩

end SheetLine

namespace Source

/-- The lines of a text, each of which ends with a line break. -/
def textLines (text : String) : List String :=
  ((text.toList.splitOn '\n').dropLast).map String.ofList

theorem toList_join_lines (lines : List String) :
    (String.join (lines.map (· ++ "\n"))).toList =
      ['\n'].intercalate (lines.map String.toList ++ [[]]) := by
  induction lines with
  | nil => rfl
  | cons line lines ih =>
    rw [List.map_cons, String.join_cons, String.toList_append, String.toList_append, ih,
      List.map_cons, List.cons_append, List.intercalate_cons_of_ne_nil (by simp)]
    rfl

/-- A text of unbroken lines is read line by line. -/
theorem textLines_join {lines : List String} (unbroken : ∀ line ∈ lines, Unbroken line) :
    textLines (String.join (lines.map (· ++ "\n"))) = lines := by
  have each : ∀ chars ∈ lines.map String.toList ++ [[]], '\n' ∉ chars := by
    intro chars listed
    rcases List.mem_append.mp listed with written | last
    · obtain ⟨line, member, rfl⟩ := List.mem_map.mp written
      exact unbroken line member
    · obtain rfl := List.mem_singleton.mp last
      nofun
  rw [textLines, toList_join_lines, List.splitOn_intercalate '\n' each (by simp),
    List.dropLast_concat, List.map_map]
  simp only [Function.comp_def, String.ofList_toList, List.map_id']

end Source

def Printed.lines (p : Printed) : List String := Source.textLines p.text

theorem Printed.lines_eq {p : Printed} {lines : List SheetLine} (text : p.text = sheetText lines)
    (unbroken : ∀ line ∈ lines, Unbroken (line.printed "" [])) :
    p.lines = lines.map (·.printed "" []) := by
  have joined : sheetText lines = String.join ((lines.map (·.printed "" [])).map (· ++ "\n")) := by
    rw [sheetText, List.map_map]
    rfl
  rw [Printed.lines, text, joined, Source.textLines_join (List.forall_mem_map.mpr unbroken)]

/-! ## Reading all lines -/

section Reading

variable {lines : List SheetLine} {indent : String} {path : List String}

theorem depthAfter_printed (formed : ∀ line ∈ lines, line.content.Formed otherWords)
    (blank : SheetLine.Blank indent) (depth : Nat) :
    Source.depthAfter depth (lines.map (·.printed indent path)) =
      lines.foldlM SheetLine.nest? depth := by
  induction lines generalizing depth with
  | nil => rfl
  | cons line lines ih =>
    obtain ⟨first, others⟩ := List.forall_mem_cons.mp formed
    have reads := line.reads_printed first blank path
    have same : Source.nest? depth (line.printed indent path) = line.nest? depth := by
      rw [Source.nest?, SheetLine.nest?, reads.opens, reads.closes]
    rw [Source.depthAfter, List.map_cons, List.foldlM_cons, List.foldlM_cons, same]
    congr 1
    funext inner
    exact ih others inner

theorem memberTexts_printed (formed : ∀ line ∈ lines, line.content.Formed otherWords)
    (blank : SheetLine.Blank indent) :
    (lines.map (·.printed indent path)).filterMap memberText? =
      lines.filterMap (·.content.memberText?) := by
  rw [List.filterMap_map]
  apply List.filterMap_congr
  intro line listed
  exact (line.reads_printed (formed line listed) blank path).member

/-- The symbols of lines go with the texts of these lines. -/
theorem forall₂_members {R : Symbol → String → Prop}
    (each : ∀ line ∈ lines, ∀ s text, line.content = .member s text → R s text) :
    List.Forall₂ R (lines.filterMap (·.content.symbol?))
      (lines.filterMap (·.content.memberText?)) := by
  induction lines with
  | nil => exact .nil
  | cons line lines ih =>
    obtain ⟨first, others⟩ := List.forall_mem_cons.mp each
    obtain ⟨depth, content⟩ := line
    cases content with
    | member s text => exact .cons (first s text rfl) (ih others)
    | plain text | global path | opening opening | closing => exact ih others

end Reading

def Source.isImport (line : String) : Bool := beginsWith ["import "] (afterMargin line)

/-- The frames of members are no imports. -/
theorem LineContent.Formed.not_import {content : LineContent} (formed : content.Formed frameWords)
    (path : List String) : beginsWith ["import "] (content.text path).toList = false := by
  have frames : ∀ v ∈ frameWords, ∀ w ∈ ["import "],
      ¬ v.toList <+: w.toList ∧ ¬ w.toList <+: v.toList := by decide
  have members : ∀ v ∈ memberWords, ∀ w ∈ ["import "],
      ¬ v.toList <+: w.toList ∧ ¬ w.toList <+: v.toList := by decide
  cases content with
  | plain text =>
    rcases formed with rfl | ⟨begins, _⟩
    · rfl
    · exact beginsWith_apart begins frames
  | global inner =>
    refine beginsWith_apart ?_ frames
    simp only [text, globalMark, String.append_assoc]
    exact beginsWith_append (by decide) _
  | opening first => exact beginsWith_apart (beginsWith_append formed _) frames
  | closing => exact (by decide : beginsWith ["import "] "\x7d".toList = false)
  | member s text => exact beginsWith_apart formed.1 members

/-- No package inside but the whole is without a name. -/
def Container.NamedBelow (c : Container) : Prop :=
  ∀ d : Container, .container d ∈ c.members → ∀ e : Container, e.Inside d → e.head ≠ .package ""

/-- Below its first lines a file has no more imports. -/
theorem Container.every_below {root : Container} (named : root.NamedBelow)
    (outputPackage : String) :
    Sheet.Every (·.Formed frameWords)
      (Sheet.inside outputPackage (rootName outputPackage) (.plain Source.scopeMark)
        root.members) := by
  have frames : Sheet.Frames (·.Formed frameWords) (rootName outputPackage)
      (.plain Source.scopeMark) :=
    { blank := .inl rfl
      native := .inr (by decide)
      mark := .inr (by decide)
      package := beginsWith_append (by decide : beginsWith frameWords _ = true) _
      loose := Source.beginsWith_objectLine (by decide) _
      closing := trivial }
  apply frames.every_inside
  intro s member
  cases s with
  | container d =>
    intro lines made line listed
    rcases d.every_sheet outputPackage lines made line listed with ⟨path, same⟩ | ⟨e, inside, own⟩
    · rw [same]
      trivial
    · rcases own.formed with formed | ⟨unnamed, _⟩
      · exact formed
      · exact absurd unnamed (named d member e inside)
  | comment text | field name type | method m =>
    exact Symbol.every_leaf rfl fun text written => formed_member member written _

theorem SheetLine.printed_plain (text : String) (path : List String) :
    printed "" path ⟨0, .plain text⟩ = text := by
  unfold printed
  dsimp only
  split
  · next none => exact (String.isEmpty_iff.mp none).symm
  · simp only [margin, String.empty_append, LineContent.text]

theorem SheetLine.map_printed_plain (texts : List String) :
    (texts.map fun text => printed "" [] ⟨0, .plain text⟩) = texts := by
  simp only [printed_plain, List.map_id']

/-- The first lines of a file import the library and its annotations. -/
theorem filter_isImport_fileHeader (outputPackage : String) :
    (fileHeader outputPackage).filter Source.isImport =
      ["import scala.scalajs.js", "import js.annotation._"] := by
  have outer (rest : String) : Source.isImport ("package " ++ rest) = false := by
    have begins : beginsWith frameWords ("package " ++ rest).toList = true :=
      beginsWith_append (by decide) rest
    have formed : (LineContent.opening ⟨.package "", "package " ++ rest⟩).Formed frameWords := begins
    have text : afterMargin ("package " ++ rest) = ("package " ++ rest).toList := by
      rw [afterMargin, String.toList_append]
      rfl
    rw [Source.isImport, text]
    exact beginsWith_apart begins (by decide)
  have rest : ["", "import scala.scalajs.js", "import js.annotation._"].filter Source.isImport =
      ["import scala.scalajs.js", "import js.annotation._"] := by decide
  unfold fileHeader
  dsimp only
  rw [List.filter_append, rest]
  split
  · rfl
  · simp [outer]

section Whole

variable {root : Container} {outputPackage : String} {lines : List SheetLine}

/-- If no name is broken, no line of the whole is. -/
theorem unbroken_lines (words : ∀ c : Container, c.Inside root → ∀ word ∈ c.words, Unbroken word)
    (segments : ∀ part ∈ Source.parts outputPackage, Unbroken part)
    (made : root.sheet outputPackage = .ok lines) {indent : String} (blank : SheetLine.Blank indent)
    {path : List String} (outer : ∀ part ∈ path, Unbroken part) :
    ∀ line ∈ lines, Unbroken (line.printed indent path) := by
  intro line listed
  apply SheetLine.unbroken_printed blank
  have origin := root.every_sheet outputPackage lines made line listed
  rcases origin with ⟨inner, content⟩ | ⟨c, inside, own⟩
  · have there : inner ∈ root.globals := by
      rw [← root.shows_globals outputPackage lines made]
      exact List.mem_filterMap.mpr ⟨line, listed, by rw [content]; rfl⟩
    have parts : ∀ part ∈ path ++ inner, Unbroken part := by
      intro part member
      rcases List.mem_append.mp member with around | below
      · exact outer part around
      · obtain ⟨c, inside, rfl⟩ := Container.exists_of_mem_globals there below
        exact words c inside _ c.name_mem_words
    have dotted : Unbroken (".".intercalate (path ++ inner)) :=
      unbroken_texture.intercalate (by decide) parts
    rw [content]
    exact unbroken_append.mpr ⟨unbroken_append.mpr ⟨by decide, dotted⟩, by decide⟩
  · exact own.unbroken (words c inside) segments path

/-- A file begins with its first lines, and no import follows. -/
theorem exists_below (unnamed : root.head = .package "") (named : root.NamedBelow)
    (made : root.sheet outputPackage = .ok lines) :
    ∃ below, lines.map (·.printed "" []) = fileHeader outputPackage ++ below ∧
      ∀ line ∈ below, Source.isImport line = false := by
  have every := root.every_below named outputPackage
  obtain ⟨head, members, index, companion⟩ := root
  obtain rfl : head = .package "" := unnamed
  rw [(Container.sheet_package outputPackage "" members index companion).trans (if_pos rfl)] at made
  obtain ⟨_, ⟨⟩, rest, inside, rfl⟩ := Sheet.append_eq_ok.mp made
  refine ⟨rest.map (·.printed "" []), ?_, ?_⟩
  · rw [List.map_append, List.map_map, List.map_map]
    exact congrArg (· ++ _) (SheetLine.map_printed_plain (fileHeader outputPackage))
  · intro line listed
    obtain ⟨line, member, rfl⟩ := List.mem_map.mp listed
    have formed := every rest inside line member
    have blank : SheetLine.Blank "" := nofun
    rw [Source.isImport, (line.reads_printed formed.other blank []).text]
    exact formed.not_import []

end Whole

/-- Where a tree is written, its text begins with the imports and has no more of them, every block
in it is closed where it should be and no other is, and for each part of the tree, in their order,
it has one line that is written for it, apart from constructors without parameters. -/
theorem layout_printed {root : Container} {outputPackage : String}
    (unnamed : root.head = .package "") (named : root.NamedBelow)
    (words : ∀ c : Container, c.Inside root → ∀ word ∈ c.words, Unbroken word)
    (segments : ∀ part ∈ Source.parts outputPackage, Unbroken part)
    (whole : (root.printed outputPackage).fault = none) :
    fileHeader outputPackage <+: (root.printed outputPackage).lines ∧
      (root.printed outputPackage).lines.filter Source.isImport =
        ["import scala.scalajs.js", "import js.annotation._"] ∧
      Source.depthAfter 0 (root.printed outputPackage).lines = some 0 ∧
      List.Forall₂ Symbol.WrittenAs (root.parts.filter (!·.isSilent))
        ((root.printed outputPackage).lines.filterMap memberText?) := by
  obtain ⟨lines, made⟩ := (Symbol.fault_printed _ _).mp whole
  have text : (root.printed outputPackage).text = sheetText lines :=
    congrArg Printed.text (Symbol.printed_of_sheet made)
  have inside := root.every_sheet outputPackage lines made
  have formed : ∀ line ∈ lines, line.content.Formed otherWords := fun line listed =>
    (inside line listed).formed
  have blank : SheetLine.Blank "" := nofun
  obtain ⟨below, cut, others⟩ := exists_below unnamed named made
  have none : below.filter Source.isImport = [] := by
    rw [List.filter_eq_nil_iff]
    intro line listed
    simp [others line listed]
  have unbroken := unbroken_lines words segments made blank (List.forall_mem_nil _)
  rw [Printed.lines_eq text unbroken, depthAfter_printed formed blank,
    root.balanced_sheet outputPackage lines made, memberTexts_printed formed blank]
  refine ⟨⟨below, cut.symm⟩, ?_, rfl, ?_⟩
  · rw [cut, List.filter_append, filter_isImport_fileHeader, none, List.append_nil]
  · have parts : lines.filterMap (·.content.symbol?) = root.parts.filter (!·.isSilent) :=
      root.shows_parts outputPackage lines made
    rw [← parts]
    apply forall₂_members
    intro line listed s text content
    rcases inside line listed with ⟨path, same⟩ | ⟨c, _, own⟩
    · rw [same] at content
      contradiction
    · rw [content] at own
      cases own with
      | member _ written => exact written

/-- What holds of a container and of all inside its members holds of all that is inside it. -/
theorem Container.forall_inside {P : Container → Prop} {c : Container} (own : P c)
    (members : ∀ d : Container, .container d ∈ c.members → ∀ e : Container, e.Inside d → P e) :
    ∀ e : Container, e.Inside c → P e := by
  intro e inside
  cases inside with
  | self => exact own
  | member listed inner => exact members _ listed e inner

/-- What is left in a package comes after the class in it, and the constructor of the class has no
line. -/
theorem layout_printed_namespace :
    let built : Method := ⟨Method.constructorName, [], [], .unit, false⟩
    let called : Method := ⟨"f", [⟨"T", none⟩], [⟨"x", .number, true⟩], .unit, false⟩
    let shape : Container := ⟨.classOrTrait { name := "A" }, [.method built, .method called], {}, none⟩
    let inner : Container :=
      ⟨.package "ns", [.field "x" .number, .container shape, .comment "??? y"], {}, none⟩
    let root : Container := ⟨.package "", [.container inner], {}, none⟩
    (root.printed "a.b").fault = none ∧
      root.parts.filter (!·.isSilent) = [.method called, .field "x" .number, .comment "??? y"] ∧
      Source.depthAfter 0 (root.printed "a.b").lines = some 0 ∧
      List.Forall₂ Symbol.WrittenAs [.method called, .field "x" .number, .comment "??? y"]
        ((root.printed "a.b").lines.filterMap memberText?) := by
  intro built called shape inner root
  have whole : (root.printed "a.b").fault = none := by rfl
  have parts : root.parts.filter (!·.isSilent) =
      [.method called, .field "x" .number, .comment "??? y"] := by rfl
  have package : ∀ d : Container, .container d ∈ root.members → d = inner := fun d member =>
    Symbol.container.inj (List.mem_singleton.mp member)
  have standing : ∀ d : Container, .container d ∈ inner.members → d = shape := fun d member => by
    simpa [inner] using member
  have leaf : ∀ d : Container, .container d ∉ shape.members := fun d member => by
    simp [shape] at member
  have below {P : Container → Prop} (first : P inner) (second : P shape) :
      ∀ d : Container, .container d ∈ root.members → ∀ e : Container, e.Inside d → P e :=
    fun d member => package d member ▸ Container.forall_inside first fun d member =>
      standing d member ▸ Container.forall_inside second fun d member => absurd member (leaf d)
  have named : root.NamedBelow := below (by simp [inner]) nofun
  have words : ∀ c : Container, c.Inside root → ∀ word ∈ c.words, Unbroken word :=
    Container.forall_inside (by decide) (below (by decide) (by decide))
  have segments : ∀ part ∈ Source.parts "a.b", Unbroken part := by decide
  obtain ⟨_, _, closed, texts⟩ := layout_printed rfl named words segments whole
  exact ⟨whole, parts, closed, parts ▸ texts⟩

end Facade
