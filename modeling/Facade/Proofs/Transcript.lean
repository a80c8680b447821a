import Facade.Proofs.Constructors

/-! What a sheet is a transcript of. Its lines are those of the containers in the tree, and a
reading of the sheet from top to bottom is put together from what each container brings: in a
package first its packages, objects and classes and then what is left, elsewhere all members in
their order. -/
namespace Facade
open Source (nativeMark scopeMark fileHeader rootName quoteName)

/-! ## Lists of symbols -/

namespace Symbol

variable (outputPackage : String)

theorem sheetStanding_eq (members : List Symbol) :
    sheetStanding outputPackage members =
      sheetAll outputPackage (members.filter (·.isContainer)) := by
  induction members with
  | nil => rfl
  | cons s rest ih =>
    unfold sheetStanding
    rw [ih]
    by_cases standing : s.isContainer = true
    · rw [if_pos standing, List.filter_cons_of_pos standing, sheetAll]
    · rw [if_neg standing, List.filter_cons_of_neg standing]
      cases sheetAll outputPackage (rest.filter (·.isContainer)) <;> rfl

theorem sheetLoose_eq (members : List Symbol) :
    sheetLoose outputPackage members =
      sheetAll outputPackage (members.filter (!·.isContainer)) := by
  induction members with
  | nil => rfl
  | cons s rest ih =>
    unfold sheetLoose
    rw [ih]
    by_cases standing : s.isContainer = true
    · rw [if_pos standing, List.filter_cons_of_neg (by simp [standing])]
      cases sheetAll outputPackage (rest.filter (!·.isContainer)) <;> rfl
    · rw [if_neg standing, List.filter_cons_of_pos (by simp [standing]), sheetAll]

end Symbol

/-- What a package writes inside: nothing at all if it has no members. -/
def Sheet.inside (outputPackage title : String) (mark : LineContent) (members : List Symbol) :
    Sheet :=
  if members.isEmpty then lines []
  else package title members mark
    (Symbol.sheetAll outputPackage (members.filter (·.isContainer)))
    (Symbol.sheetAll outputPackage (members.filter (!·.isContainer)))

/-- A package without a name is written as a file. -/
theorem Container.sheet_package (outputPackage name : String) (members : List Symbol)
    (index : Index) (companion : Option Key) :
    Container.sheet outputPackage ⟨.package name, members, index, companion⟩ =
      if name.isEmpty then
        (Sheet.lines ((fileHeader outputPackage).map .plain)).append
          (Sheet.inside outputPackage (rootName outputPackage) (.plain scopeMark) members)
      else (Sheet.inside outputPackage name (.global []) members).under name := by
  unfold Container.sheet Sheet.inside
  simp only [Symbol.sheetStanding_eq, Symbol.sheetLoose_eq]

/-! ## Readings -/

/-- What is read off the lines of a sheet, from top to bottom. -/
def Sheet.Shows {β : Type} (read : LineContent → Option β) (shown : List β) (sheet : Sheet) :
    Prop := ∀ lines, sheet = .ok lines → lines.filterMap (read ·.content) = shown

namespace Sheet

variable {β : Type} {read : LineContent → Option β} {shown rest : List β} {sheet next : Sheet}

theorem shows_lines (read : LineContent → Option β) (contents : List LineContent) :
    Shows read (contents.filterMap read) (lines contents) := by
  rintro _ ⟨⟩
  rw [List.filterMap_map]
  rfl

theorem Shows.append (first : Shows read shown sheet) (second : Shows read rest next) :
    Shows read (shown ++ rest) (sheet.append next) := by
  intro all made
  obtain ⟨front, here, back, there, rfl⟩ := append_eq_ok.mp made
  rw [List.filterMap_append, first front here, second back there]

theorem Shows.bind {α : Type} {made : Except TypeFault α} {sheets : α → Sheet}
    (each : ∀ whole, made = .ok whole → Shows read shown (sheets whole)) :
    Shows read shown (made >>= sheets) := forall_lines_bind each

theorem Shows.deeper (shows : Shows read shown sheet) : Shows read shown sheet.deeper := by
  intro lines made
  obtain ⟨inner, here, rfl⟩ := map_eq_ok.mp made
  rw [List.filterMap_map]
  exact shows inner here

end Sheet

/-- A reading that looks past all lines but those of members, and does not see where they are. -/
structure LineContent.Skips {β : Type} (read : LineContent → Option β) : Prop where
  plain : ∀ text, read (.plain text) = none
  global : ∀ path, read (.global path) = none
  opening : ∀ opening, read (.opening opening) = none
  closing : read .closing = none
  under : ∀ name content, read (content.under name) = read content

namespace Sheet

variable {β : Type} {read : LineContent → Option β} {shown : List β} {sheet : Sheet}

theorem shows_silent {contents : List LineContent}
    (silent : ∀ content ∈ contents, read content = none) : Shows read [] (lines contents) := by
  have each := shows_lines read contents
  rwa [List.filterMap_eq_nil_iff.mpr silent] at each

theorem shows_nothing : Shows read [] (lines []) := shows_silent nofun

theorem shows_plain (skips : LineContent.Skips read) (texts : List String) :
    Shows read [] (lines (texts.map .plain)) := by
  apply shows_silent
  intro content listed
  obtain ⟨text, _, rfl⟩ := List.mem_map.mp listed
  exact skips.plain text

/-- The lines above a definition. -/
theorem shows_marks (skips : LineContent.Skips read) {mark : LineContent}
    (silent : read mark = none) :
    Shows read [] (lines [.plain "", .plain nativeMark, mark]) := by
  apply shows_silent
  simp only [List.forall_mem_cons]
  exact ⟨skips.plain "", skips.plain nativeMark, silent, nofun⟩

theorem Shows.under (skips : LineContent.Skips read) (shows : Shows read shown sheet)
    (name : String) : Shows read shown (sheet.under name) := by
  intro lines made
  obtain ⟨inner, here, rfl⟩ := map_eq_ok.mp made
  rw [List.filterMap_map, ← shows inner here]
  exact congrArg (List.filterMap · inner) (funext fun line => skips.under name line.content)

/-- Braces show nothing. -/
theorem Shows.enclosed (skips : LineContent.Skips read) (shows : Shows read shown sheet)
    (opening : Opening) : Shows read shown (Sheet.enclosed opening sheet) := by
  have opens : Shows read [] (lines [.opening opening]) :=
    shows_silent (List.forall_mem_singleton.mpr (skips.opening opening))
  have closes : Shows read [] (lines [.closing]) :=
    shows_silent (List.forall_mem_singleton.mpr skips.closing)
  have whole := opens.append (shows.append closes)
  rwa [List.nil_append, List.append_nil] at whole

theorem Shows.block (skips : LineContent.Skips read) (shows : Shows read shown sheet)
    (opening : Opening) : Shows read shown (Sheet.block opening sheet) :=
  shows.deeper.enclosed skips opening

end Sheet

section Members

variable {β : Type} {read : LineContent → Option β} {outputPackage : String}
  {shown : Symbol → List β} {members : List Symbol}

/-- A list of symbols shows what its symbols show, one after the other. -/
theorem Symbol.shows_all
    (each : ∀ s ∈ members, Sheet.Shows read (shown s) (s.sheet outputPackage)) :
    Sheet.Shows read (members.flatMap shown) (Symbol.sheetAll outputPackage members) := by
  induction members with
  | nil => exact Sheet.shows_nothing
  | cons s rest ih =>
    have others := ih fun t listed => each t (.tail _ listed)
    exact (each s (.head _)).append others

theorem Symbol.shows_filter
    (each : ∀ s ∈ members, Sheet.Shows read (shown s) (s.sheet outputPackage))
    (kept : Symbol → Bool) :
    Sheet.Shows read ((members.filter kept).flatMap shown)
      (Symbol.sheetAll outputPackage (members.filter kept)) := by
  apply shows_all
  intro s listed
  exact each s (List.mem_filter.mp listed).1

/-- A definition without members has no braces. -/
theorem Symbol.shows_definition (skips : LineContent.Skips read)
    (each : ∀ s ∈ members, Sheet.Shows read (shown s) (s.sheet outputPackage)) (head : Head)
    (header : String) :
    Sheet.Shows read (members.flatMap shown)
      (Sheet.definition head header members.isEmpty (Symbol.sheetAll outputPackage members)) := by
  unfold Sheet.definition
  split
  · next none =>
    obtain rfl := List.isEmpty_iff.mp none
    exact Sheet.shows_plain skips [header]
  · exact (shows_all each).block skips ⟨.definition head, header⟩

/-- Where nothing is left in a package, there is no object for it. -/
theorem Symbol.shows_loose (skips : LineContent.Skips read)
    (each : ∀ s ∈ members, Sheet.Shows read (shown s) (s.sheet outputPackage)) (title : String)
    {mark : LineContent} (silent : read mark = none) :
    Sheet.Shows read ((members.filter (!·.isContainer)).flatMap shown)
      (Sheet.loose title members mark
        (Symbol.sheetAll outputPackage (members.filter (!·.isContainer)))) := by
  unfold Sheet.loose
  split
  · have body := shows_filter each (!·.isContainer)
    exact (Sheet.shows_marks skips silent).append
      (body.block skips ⟨.loose title, Source.objectLine (Text.capitalize title)⟩)
  · next none =>
    have empty : members.filter (!·.isContainer) = [] := by
      rw [List.filter_eq_nil_iff]
      intro s listed loose
      exact none (List.any_eq_true.mpr ⟨s, listed, loose⟩)
    rw [empty]
    exact Sheet.shows_nothing

/-- The symbols that stand alone come first, and then what is left. -/
theorem Symbol.shows_inside (skips : LineContent.Skips read)
    (each : ∀ s ∈ members, Sheet.Shows read (shown s) (s.sheet outputPackage)) (title : String)
    {mark : LineContent} (silent : read mark = none) :
    Sheet.Shows read
      ((members.filter (·.isContainer)).flatMap shown ++
        (members.filter (!·.isContainer)).flatMap shown)
      (Sheet.inside outputPackage title mark members) := by
  have above := shows_filter each (·.isContainer)
  have below := shows_loose skips each title silent
  have blank : Sheet.Shows read [] (Sheet.lines [.plain ""]) := Sheet.shows_plain skips [""]
  unfold Sheet.inside
  split
  · next none =>
    obtain rfl := List.isEmpty_iff.mp none
    exact Sheet.shows_nothing
  · have block := (above.append (below.append blank)).enclosed skips
      ⟨.package title, "package " ++ quoteName title⟩
    have whole := blank.append block
    rwa [List.nil_append, List.append_nil] at whole

namespace Container

theorem shows_package (skips : LineContent.Skips read)
    (each : ∀ s ∈ members, Sheet.Shows read (shown s) (s.sheet outputPackage)) (name : String)
    (index : Index) (companion : Option Key) :
    Sheet.Shows read
      ((members.filter (·.isContainer)).flatMap shown ++
        (members.filter (!·.isContainer)).flatMap shown)
      (sheet outputPackage ⟨.package name, members, index, companion⟩) := by
  rw [sheet_package]
  split
  · have inside := Symbol.shows_inside skips each (rootName outputPackage) (skips.plain scopeMark)
    exact (Sheet.shows_plain skips (fileHeader outputPackage)).append inside
  · exact (Symbol.shows_inside skips each name (skips.global [])).under skips name

theorem shows_object (skips : LineContent.Skips read)
    (each : ∀ s ∈ members, Sheet.Shows read (shown s) (s.sheet outputPackage)) (name : String)
    (index : Index) (companion : Option Key) :
    Sheet.Shows read (members.flatMap shown)
      (sheet outputPackage ⟨.object name, members, index, companion⟩) := by
  unfold sheet
  exact (Sheet.shows_marks skips (skips.global [name])).append
    (Symbol.shows_definition skips each _ _)

theorem shows_classOrTrait (skips : LineContent.Skips read)
    (each : ∀ s ∈ members, Sheet.Shows read (shown s) (s.sheet outputPackage)) (info : ClassHead)
    (index : Index) (companion : Option Key) :
    Sheet.Shows read (members.flatMap shown)
      (sheet outputPackage ⟨.classOrTrait info, members, index, companion⟩) := by
  have mark : Sheet.Shows read []
      (Sheet.lines (if info.isTrait then [] else [.global [info.name]])) := by
    split
    · exact Sheet.shows_nothing
    · exact Sheet.shows_silent (List.forall_mem_singleton.mpr (skips.global [info.name]))
  unfold sheet
  apply (Sheet.shows_plain skips ["", nativeMark]).append
  apply mark.append
  apply Sheet.Shows.bind
  intro header _
  exact Symbol.shows_definition skips each _ header

end Container

end Members

/-! ## Members -/

/-- The symbol that a line is written for. -/
def LineContent.symbol? : LineContent → Option Symbol
  | .member s _ => some s
  | _ => none

/-- A class has the constructor without parameters anyway. -/
def Symbol.isSilent : Symbol → Bool
  | .method m => m.name == Method.constructorName && m.params.isEmpty
  | _ => false

mutual

/-- The fields, methods and comments of a tree in the order in which they are written. -/
def Symbol.parts : Symbol → List Symbol
  | .container c => c.parts
  | s => [s]

def Container.parts : Container → List Symbol
  | ⟨.package _, members, _, _⟩ =>
      Symbol.standingParts members ++ members.filter (!·.isContainer)
  | ⟨.object _, members, _, _⟩ | ⟨.classOrTrait _, members, _, _⟩ => Symbol.allParts members

def Symbol.allParts : List Symbol → List Symbol
  | [] => []
  | s :: rest => s.parts ++ Symbol.allParts rest

/-- The parts of the packages, objects and classes among the members of a package. -/
def Symbol.standingParts : List Symbol → List Symbol
  | [] => []
  | .container c :: rest => c.parts ++ Symbol.standingParts rest
  | _ :: rest => Symbol.standingParts rest

end

theorem Symbol.allParts_eq (members : List Symbol) : allParts members = members.flatMap parts := by
  induction members with
  | nil => rfl
  | cons s rest ih => rw [allParts, ih, List.flatMap_cons]

theorem Symbol.standingParts_eq (members : List Symbol) :
    standingParts members = (members.filter (·.isContainer)).flatMap parts := by
  induction members with
  | nil => rfl
  | cons s rest ih =>
    cases s with
    | container c =>
      rw [standingParts, ih, List.filter_cons_of_pos rfl, List.flatMap_cons, parts]
    | comment text | field name type | method m => exact ih

/-- A member that is left in a package is a part of its own. -/
theorem Symbol.flatMap_parts_loose (members : List Symbol) :
    (members.filter (!·.isContainer)).flatMap parts = members.filter (!·.isContainer) := by
  induction members with
  | nil => rfl
  | cons s rest ih =>
    cases s with
    | container c => exact ih
    | comment text | field name type | method m => exact congrArg (List.cons _) ih

/-- The parts that have a line of their own. -/
def Symbol.spoken (s : Symbol) : List Symbol := s.parts.filter (!·.isSilent)

theorem LineContent.skips_symbol? : LineContent.Skips LineContent.symbol? where
  plain _ := rfl
  global _ := rfl
  opening _ := rfl
  closing := rfl
  under name content := by cases content <;> rfl

theorem Method.line?_eq_none {m : Method} :
    m.line? = .ok none ↔ (Symbol.method m).isSilent = true := by
  unfold line? Symbol.isSilent
  rw [Bool.and_eq_true]
  split
  · next reserved =>
    split
    · next none => simp only [reserved, none, and_self]
    · next some => simp [reserved, some, map_eq_ok]
  · next other => simp [other, map_eq_ok]

theorem Symbol.shows_leaf {s : Symbol} (leaf : s.isContainer = false) (outputPackage : String) :
    Sheet.Shows LineContent.symbol? s.spoken (s.sheet outputPackage) := by
  cases s with
  | comment text => exact Sheet.shows_lines _ _
  | field name type => exact .bind fun text _ => Sheet.shows_lines _ _
  | method m =>
    refine .bind fun text? made => ?_
    have silent := m.line?_eq_none
    rw [made] at silent
    cases text? with
    | none =>
      have spoken : (Symbol.method m).spoken = [] := by
        simp [spoken, parts, silent.mp rfl]
      rw [spoken]
      exact Sheet.shows_nothing
    | some text =>
      have spoken : (Symbol.method m).spoken = [.method m] := by
        have heard : (Symbol.method m).isSilent = false := by simpa using silent
        simp [spoken, parts, heard]
      rw [spoken]
      exact Sheet.shows_lines _ _
  | container c => contradiction

theorem Symbol.flatMap_spoken (members : List Symbol) :
    members.flatMap spoken = (members.flatMap parts).filter (!·.isSilent) := by
  rw [List.filter_flatMap]
  rfl

/-- The lines of a tree that are written for members are those of its parts, in their order. -/
theorem Container.shows_parts (outputPackage : String) (c : Container) :
    Sheet.Shows LineContent.symbol? (Symbol.container c).spoken (c.sheet outputPackage) := by
  induction c using Container.induct with
  | step c ih =>
    obtain ⟨head, members, index, companion⟩ := c
    have each : ∀ s ∈ members, Sheet.Shows LineContent.symbol? s.spoken (s.sheet outputPackage) := by
      intro s listed
      cases s with
      | container d => exact ih d listed
      | comment text | field name type | method m => exact Symbol.shows_leaf rfl outputPackage
    have skips := LineContent.skips_symbol?
    cases head with
    | package name =>
      have spoken : Symbol.spoken (.container ⟨.package name, members, index, companion⟩) =
          (members.filter (·.isContainer)).flatMap Symbol.spoken ++
            (members.filter (!·.isContainer)).flatMap Symbol.spoken := by
        rw [Symbol.flatMap_spoken, Symbol.flatMap_spoken, Symbol.flatMap_parts_loose,
          ← Symbol.standingParts_eq, ← List.filter_append]
        rfl
      rw [spoken]
      exact shows_package skips each name index companion
    | object name =>
      have all := shows_object skips each name index companion
      rwa [Symbol.flatMap_spoken, ← Symbol.allParts_eq] at all
    | classOrTrait info =>
      have all := shows_classOrTrait skips each info index companion
      rwa [Symbol.flatMap_spoken, ← Symbol.allParts_eq] at all

/-! ## Paths -/

def LineContent.global? : LineContent → Option (List String)
  | .global path => some path
  | _ => none

mutual

/-- The paths that a tree is annotated with, in the order in which they are written: those of its
objects, of its classes that are no traits, and of what is left in its packages with a name. -/
def Symbol.globals : Symbol → List (List String)
  | .container c => c.globals
  | _ => []

def Container.globals : Container → List (List String)
  | ⟨.package name, members, _, _⟩ =>
      if name.isEmpty then Symbol.allGlobals members
      else (Symbol.allGlobals members ++
        if members.any (!·.isContainer) then [[]] else []).map (name :: ·)
  | ⟨.object name, members, _, _⟩ => [name] :: Symbol.allGlobals members
  | ⟨.classOrTrait info, members, _, _⟩ =>
      if info.isTrait then Symbol.allGlobals members
      else [info.name] :: Symbol.allGlobals members

def Symbol.allGlobals : List Symbol → List (List String)
  | [] => []
  | s :: rest => s.globals ++ Symbol.allGlobals rest

end

theorem Symbol.allGlobals_eq (members : List Symbol) :
    allGlobals members = members.flatMap globals := by
  induction members with
  | nil => rfl
  | cons s rest ih => rw [allGlobals, ih, List.flatMap_cons]

theorem LineContent.global?_under (name : String) (content : LineContent) :
    (content.under name).global? = content.global?.map (name :: ·) := by
  cases content <;> rfl

end Facade
