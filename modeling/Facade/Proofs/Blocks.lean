import Facade.Proofs.Evolution
import Facade.Proofs.Sheet
import Facade.Proofs.Spelling

/-! What the lines of a facade stand in. Every field, method and comment is written directly in the
block of its container: for a package, that is the object for what is left. So what is known of
each member in its block, and of each header, is known of the whole sheet. -/
namespace Facade
open Source (fieldLine commentLine objectLine)

/-- A line that is neither a member nor a brace. -/
def LineContent.isFlat : LineContent → Bool
  | .plain _ | .global _ => true
  | .opening _ | .closing | .member _ _ => false

/-- The block that the lines of the members of a container are written in. -/
def Container.Opens (c : Container) (opening : Opening) : Prop :=
  match c.head with
  | .package _ => ∃ name, opening.block = .loose name
  | .object name => opening = ⟨.definition c.head, objectLine name⟩
  | .classOrTrait info => opening.block = .definition c.head ∧ info.line = .ok opening.header

/-! ## Sheets that can be made -/

namespace Sheet

variable {first second body : Sheet} {all : List SheetLine}

theorem append_eq_ok : first.append second = .ok all ↔
    ∃ front, first = .ok front ∧ ∃ back, second = .ok back ∧ front ++ back = all := by
  simp only [append, bind_eq_ok, pure, Except.pure, Except.ok.injEq]

theorem enclosed_eq_ok {opening : Opening} : Sheet.enclosed opening body = .ok all ↔
    ∃ inner, body = .ok inner ∧ ⟨0, .opening opening⟩ :: (inner ++ [⟨0, .closing⟩]) = all := by
  cases body with
  | error fault => exact ⟨nofun, nofun⟩
  | ok inner =>
    constructor
    · rintro ⟨⟩
      exact ⟨inner, rfl, rfl⟩
    · rintro ⟨_, ⟨⟩, rfl⟩
      rfl

/-- What holds of the lines of all sheets that can come next. -/
theorem forall_lines_bind {α : Type} {made : Except TypeFault α} {sheets : α → Sheet}
    {Q : List SheetLine → Prop}
    (each : ∀ whole, made = .ok whole → ∀ lines, sheets whole = .ok lines → Q lines) :
    ∀ lines, made >>= sheets = .ok lines → Q lines := by
  intro lines done
  obtain ⟨whole, here, done⟩ := bind_eq_ok.mp done
  exact each whole here lines done

end Sheet

/-! ## What the sheets of a tree are made of -/

/-- What holds of a sheet in given blocks if it holds of the lines it is made of. -/
structure Sheet.Rules (Q : List Opening → Sheet → Prop) : Prop where
  flat : ∀ {outer contents}, contents.all (·.isFlat) → Q outer (Sheet.lines contents)
  append : ∀ {outer first second}, Q outer first → Q outer second → Q outer (first.append second)
  deeper : ∀ {outer sheet}, Q outer sheet → Q outer sheet.deeper
  under : ∀ {outer sheet}, Q outer sheet → ∀ name, Q outer (sheet.under name)
  enclosed : ∀ {outer opening sheet}, Q (opening :: outer) sheet →
    Q outer (Sheet.enclosed opening sheet)

/-- What a container brings to its sheet: its members, each in its block, and its header. -/
structure Container.Brings (outputPackage : String) (Q : List Opening → Sheet → Prop)
    (c : Container) : Prop where
  member : ∀ s ∈ c.members, s.isContainer = false → ∀ opening, c.Opens opening →
    ∀ outer, Q (opening :: outer) (s.sheet outputPackage)
  header : ∀ info, c.head = .classOrTrait info → ∀ outer (sheets : String → Sheet),
    (∀ header, info.line = .ok header → Q outer (sheets header)) → Q outer (info.line >>= sheets)

namespace Sheet.Rules

variable {Q : List Opening → Sheet → Prop} {outer : List Opening} {sheet : Sheet}

theorem nothing (rules : Rules Q) : Q outer (lines []) := rules.flat rfl

theorem block (rules : Rules Q) {opening : Opening} (inside : Q (opening :: outer) sheet) :
    Q outer (Sheet.block opening sheet) := rules.enclosed (rules.deeper inside)

theorem definition (rules : Rules Q) {head : Head} {header : String}
    (inside : Q (⟨.definition head, header⟩ :: outer) sheet) (empty : Bool) :
    Q outer (Sheet.definition head header empty sheet) := by
  unfold Sheet.definition
  split
  · exact rules.flat rfl
  · exact rules.block inside

theorem package (rules : Rules Q) {name : String} {members : List Symbol} {mark : LineContent}
    {standing body : Sheet} (flat : mark.isFlat) (above : ∀ outer, Q outer standing)
    (below : ∀ outer header, Q (⟨.loose name, header⟩ :: outer) body) :
    Q outer (Sheet.package name members mark standing body) := by
  unfold Sheet.package Sheet.loose
  refine rules.append (rules.flat rfl)
    (rules.enclosed (rules.append (above _) (rules.append ?_ (rules.flat rfl))))
  split
  · have three : [.plain "", .plain Source.nativeMark, mark].all (·.isFlat) :=
      (Bool.and_true _).trans flat
    exact rules.append (rules.flat three) (rules.block (below _ _))
  · exact rules.nothing

mutual

theorem symbol {Q : List Opening → Sheet → Prop} (rules : Rules Q) (outputPackage : String)
    (s : Symbol) (outer : List Opening)
    (own : s.isContainer = false → Q outer (s.sheet outputPackage))
    (inner : ∀ c d : Container, s = .container c → d.Inside c → d.Brings outputPackage Q) :
    Q outer (s.sheet outputPackage) := by
  cases s with
  | container c => exact rules.container outputPackage c outer fun d => inner c d rfl
  | comment text | field name type | method m => exact own rfl

/-- What holds of the members and headers of a tree, each where it stands, holds of the sheet. -/
theorem container {Q : List Opening → Sheet → Prop} (rules : Rules Q) (outputPackage : String)
    (c : Container) (outer : List Opening)
    (brings : ∀ d : Container, d.Inside c → d.Brings outputPackage Q) :
    Q outer (c.sheet outputPackage) := by
  obtain ⟨head, members, index, companion⟩ := c
  have own := (brings _ (.self _)).member
  have inner : ∀ d e : Container, .container d ∈ members → e.Inside d → e.Brings outputPackage Q :=
    fun d e member inside => brings e (.member member inside)
  cases head with
  | package name =>
    have whole (title : String) {mark : LineContent} (flat : mark.isFlat) :
        Q outer (Sheet.package title members mark (Symbol.sheetStanding outputPackage members)
          (Symbol.sheetLoose outputPackage members)) := by
      refine rules.package flat (rules.standing outputPackage members · inner) ?_
      intro outer header
      exact rules.loose outputPackage members _ fun s listed loose =>
        own s listed loose _ ⟨title, rfl⟩ outer
    unfold Container.sheet
    dsimp only
    split
    · refine rules.append (rules.flat ?_) ?_
      · rw [List.all_map, List.all_eq_true]
        exact fun text _ => rfl
      · split
        · exact rules.nothing
        · exact whole _ rfl
    · refine rules.under ?_ name
      split
      · exact rules.nothing
      · exact whole name rfl
  | object name =>
    have body := rules.all outputPackage members
      (⟨.definition (.object name), objectLine name⟩ :: outer)
      (fun s listed plain => own s listed plain _ rfl outer) inner
    unfold Container.sheet
    exact rules.append (rules.flat rfl) (rules.definition body members.isEmpty)
  | classOrTrait info =>
    unfold Container.sheet
    refine rules.append (rules.flat rfl) (rules.append (rules.flat ?_) ?_)
    · cases info.isTrait <;> rfl
    · refine (brings _ (.self _)).header info rfl outer _ fun header made => ?_
      have body := rules.all outputPackage members
        (⟨.definition (.classOrTrait info), header⟩ :: outer)
        (fun s listed plain => own s listed plain _ ⟨rfl, made⟩ outer) inner
      exact rules.definition body members.isEmpty

theorem all {Q : List Opening → Sheet → Prop} (rules : Rules Q) (outputPackage : String)
    (members : List Symbol) (outer : List Opening)
    (own : ∀ s ∈ members, s.isContainer = false → Q outer (s.sheet outputPackage))
    (inner : ∀ c d : Container, .container c ∈ members → d.Inside c → d.Brings outputPackage Q) :
    Q outer (Symbol.sheetAll outputPackage members) := by
  cases members with
  | nil => exact rules.nothing
  | cons s rest =>
    have first := rules.symbol outputPackage s outer (own s (.head _)) fun c d same =>
      inner c d (same ▸ .head _)
    exact rules.append first (rules.all outputPackage rest outer
      (fun other listed => own other (.tail _ listed)) fun c d listed => inner c d (.tail _ listed))

theorem standing {Q : List Opening → Sheet → Prop} (rules : Rules Q) (outputPackage : String)
    (members : List Symbol) (outer : List Opening)
    (inner : ∀ c d : Container, .container c ∈ members → d.Inside c → d.Brings outputPackage Q) :
    Q outer (Symbol.sheetStanding outputPackage members) := by
  cases members with
  | nil => exact rules.nothing
  | cons s rest =>
    refine rules.append ?_
      (rules.standing outputPackage rest outer fun c d listed => inner c d (.tail _ listed))
    split
    · next container =>
      exact rules.symbol outputPackage s outer (fun plain => absurd container (by simp [plain]))
        fun c d same => inner c d (same ▸ .head _)
    · exact rules.nothing

theorem loose {Q : List Opening → Sheet → Prop} (rules : Rules Q) (outputPackage : String)
    (members : List Symbol) (outer : List Opening)
    (own : ∀ s ∈ members, s.isContainer = false → Q outer (s.sheet outputPackage)) :
    Q outer (Symbol.sheetLoose outputPackage members) := by
  cases members with
  | nil => exact rules.nothing
  | cons s rest =>
    refine rules.append ?_
      (rules.loose outputPackage rest outer fun other listed => own other (.tail _ listed))
    split
    · exact rules.nothing
    · next plain => exact own s (.head _) (Bool.eq_false_iff.mpr plain)

end

end Sheet.Rules

/-! ## Open blocks -/

/-- The blocks that are open after a line, the innermost first. -/
def SheetLine.turn (outer : List Opening) (line : SheetLine) : List Opening :=
  match line.content with
  | .opening opening => opening :: outer
  | .closing => outer.tail
  | _ => outer

def openAfter (outer : List Opening) (lines : List SheetLine) : List Opening :=
  lines.foldl SheetLine.turn outer

theorem openAfter_append (outer : List Opening) (first second : List SheetLine) :
    openAfter outer (first ++ second) = openAfter (openAfter outer first) second :=
  List.foldl_append

/-- The blocks that are open at the line of a member are as they should be. -/
def Placed (P : List Opening → Symbol → String → Prop) : List Opening → List SheetLine → Prop
  | _, [] => True
  | outer, line :: rest =>
      (∀ s text, line.content = .member s text → P outer s text) ∧ Placed P (line.turn outer) rest

section Placed

variable {P : List Opening → Symbol → String → Prop} {outer : List Opening}

theorem placed_append {first second : List SheetLine} :
    Placed P outer (first ++ second) ↔
      Placed P outer first ∧ Placed P (openAfter outer first) second := by
  induction first generalizing outer with
  | nil => simp only [List.nil_append, Placed, true_and]; rfl
  | cons line first ih =>
    simp only [List.cons_append, Placed, ih, and_assoc]
    rfl

theorem Placed.at {before after : List SheetLine} {line : SheetLine}
    (placed : Placed P outer (before ++ line :: after)) {s : Symbol} {text : String}
    (content : line.content = .member s text) : P (openAfter outer before) s text :=
  (placed_append.mp placed).2.1 s text content

/-- Changes to lines that leave members and braces alone leave the blocks as they are. -/
theorem openAfter_map {f : SheetLine → SheetLine}
    (turn : ∀ outer line, (f line).turn outer = line.turn outer) (lines : List SheetLine) :
    openAfter outer (lines.map f) = openAfter outer lines := by
  simp only [openAfter, List.foldl_map, turn]

theorem Placed.map {f : SheetLine → SheetLine}
    (turn : ∀ outer line, (f line).turn outer = line.turn outer)
    (members : ∀ line s text, (f line).content = .member s text → line.content = .member s text)
    {lines : List SheetLine} (placed : Placed P outer lines) : Placed P outer (lines.map f) := by
  induction lines generalizing outer with
  | nil => trivial
  | cons line lines ih =>
    refine ⟨fun s text content => placed.1 s text (members line s text content), ?_⟩
    rw [turn]
    exact ih placed.2

end Placed

theorem SheetLine.turn_deeper (outer : List Opening) (line : SheetLine) :
    line.deeper.turn outer = line.turn outer := rfl

theorem SheetLine.turn_under (name : String) (outer : List Opening) (line : SheetLine) :
    (line.under name).turn outer = line.turn outer := by
  obtain ⟨depth, content⟩ := line
  cases content <;> rfl

theorem SheetLine.content_under {name : String} {line : SheetLine} {s : Symbol} {text : String}
    (content : (line.under name).content = .member s text) : line.content = .member s text := by
  obtain ⟨depth, inner⟩ := line
  cases inner with
  | global path => contradiction
  | _ => exact content

/-- The line of a member, as it is written in whatever block. -/
def Symbol.WrittenAs : Symbol → String → Prop
  | .comment body, text => text = commentLine body
  | .field name type, text => fieldLine name type = .ok text
  | .method m, text => m.line? = .ok (some text)
  | .container _, _ => False

namespace Sheet

variable {P : List Opening → Symbol → String → Prop} {outer : List Opening} {sheet rest : Sheet}

/-- A sheet closes what it opens, and places its members. -/
def Places (P : List Opening → Symbol → String → Prop) (outer : List Opening) (sheet : Sheet) :
    Prop := ∀ lines, sheet = .ok lines → openAfter outer lines = outer ∧ Placed P outer lines

theorem Places.append (first : Places P outer sheet) (second : Places P outer rest) :
    Places P outer (sheet.append rest) := by
  intro all made
  obtain ⟨front, here, back, there, rfl⟩ := append_eq_ok.mp made
  obtain ⟨closed, placed⟩ := first front here
  obtain ⟨closed', placed'⟩ := second back there
  rw [openAfter_append, placed_append, closed]
  exact ⟨closed', placed, placed'⟩

theorem Places.bind {α : Type} {made : Except TypeFault α} {sheets : α → Sheet}
    (each : ∀ whole, made = .ok whole → Places P outer (sheets whole)) :
    Places P outer (made >>= sheets) := forall_lines_bind each

/-- Lines without braces, some of them members. -/
theorem places_lines {contents : List LineContent}
    (flat : ∀ content ∈ contents, SheetLine.turn outer ⟨0, content⟩ = outer)
    (members : ∀ s text, .member s text ∈ contents → P outer s text) :
    Places P outer (lines contents) := by
  rintro _ ⟨⟩
  induction contents with
  | nil => exact ⟨rfl, trivial⟩
  | cons content contents ih =>
    obtain ⟨closed, placed⟩ := ih (fun other listed => flat other (.tail _ listed))
      fun s text listed => members s text (.tail _ listed)
    have same := flat content (.head _)
    simp only [List.map_cons, openAfter, List.foldl_cons, Placed, same]
    exact ⟨closed, fun s text here => members s text (here ▸ .head _), placed⟩

/-- Lines that are neither members nor braces. -/
theorem places_flat {contents : List LineContent} (flat : contents.all (·.isFlat)) :
    Places P outer (lines contents) := by
  refine places_lines (fun content listed => ?_) fun s text listed => ?_
  · have here := List.all_eq_true.mp flat content listed
    cases content with
    | plain text | global path => rfl
    | opening opening | closing | member s text => contradiction
  · exact absurd (List.all_eq_true.mp flat _ listed) nofun

theorem Places.deeper (places : Places P outer sheet) : Places P outer sheet.deeper := by
  intro lines made
  obtain ⟨inner, here, rfl⟩ := map_eq_ok.mp made
  obtain ⟨closed, placed⟩ := places inner here
  exact ⟨(openAfter_map SheetLine.turn_deeper inner).trans closed,
    placed.map SheetLine.turn_deeper fun _ _ _ => id⟩

theorem Places.under (places : Places P outer sheet) (name : String) :
    Places P outer (sheet.under name) := by
  intro lines made
  obtain ⟨inner, here, rfl⟩ := map_eq_ok.mp made
  obtain ⟨closed, placed⟩ := places inner here
  exact ⟨(openAfter_map (SheetLine.turn_under name) inner).trans closed,
    placed.map (SheetLine.turn_under name) fun _ _ _ => SheetLine.content_under⟩

/-- A block that is opened is closed after its body. -/
theorem Places.enclosed {opening : Opening} (places : Places P (opening :: outer) sheet) :
    Places P outer (Sheet.enclosed opening sheet) := by
  intro all made
  obtain ⟨body, inside, rfl⟩ := enclosed_eq_ok.mp made
  obtain ⟨closed, placed⟩ := places body inside
  have after : openAfter outer (⟨0, .opening opening⟩ :: (body ++ [⟨0, .closing⟩])) =
      (openAfter (opening :: outer) body).tail :=
    openAfter_append (opening :: outer) body [⟨0, .closing⟩]
  rw [after, closed]
  refine ⟨rfl, nofun, ?_⟩
  exact placed_append.mpr ⟨placed, nofun, trivial⟩

theorem places_rules (P : List Opening → Symbol → String → Prop) : Rules (Places P) where
  flat := places_flat
  append := .append
  deeper := .deeper
  under := .under
  enclosed := .enclosed

end Sheet

namespace Container

variable {P : List Opening → Symbol → String → Prop}

/-- What holds of the members of a container that are written in its block. -/
def Arranges (c : Container) (P : List Opening → Symbol → String → Prop) : Prop :=
  ∀ d : Container, d.Inside c → ∀ s ∈ d.members, ∀ opening, d.Opens opening →
    ∀ outer text, s.WrittenAs text → P (opening :: outer) s text

theorem Arranges.brings {c d : Container} (arranges : c.Arranges P) (inside : d.Inside c)
    (outputPackage : String) : d.Brings outputPackage (Sheet.Places P) where
  member s member loose opening opens outer := by
    have written := arranges d inside s member opening opens outer
    cases s with
    | comment body =>
      refine Sheet.places_lines (by simp [SheetLine.turn]) fun s text listed => ?_
      obtain ⟨rfl, rfl⟩ := LineContent.member.inj (List.mem_singleton.mp listed)
      exact written _ rfl
    | field name type =>
      refine .bind fun text made =>
        Sheet.places_lines (by simp [SheetLine.turn]) fun s other listed => ?_
      obtain ⟨rfl, rfl⟩ := LineContent.member.inj (List.mem_singleton.mp listed)
      exact written _ made
    | method m =>
      refine .bind fun text? made =>
        Sheet.places_lines (by simp [SheetLine.turn]) fun s other listed => ?_
      obtain ⟨text, given, same⟩ := List.mem_map.mp listed
      obtain ⟨rfl, rfl⟩ := LineContent.member.inj same
      exact written _ (made.trans (congrArg Except.ok (Option.mem_toList.mp given)))
    | container e => contradiction
  header _ _ _ _ := .bind

/-- The blocks around the line of a member, in the sheet of a whole tree. -/
theorem Arranges.at {c : Container} (arranges : c.Arranges P) {outputPackage : String}
    {before after : List SheetLine} {line : SheetLine}
    (made : c.sheet outputPackage = .ok (before ++ line :: after)) {s : Symbol} {text : String}
    (content : line.content = .member s text) : P (openAfter [] before) s text := by
  have places := (Sheet.places_rules P).container outputPackage c [] fun d inside =>
    arranges.brings inside outputPackage
  exact (places _ made).2.at content

end Container

end Facade
