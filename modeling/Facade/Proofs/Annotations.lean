import Facade.Proofs.LineForms
import Mathlib.Data.List.Forall2

/-! What the annotations with a path stand for. Each object, each class and what is left in each
package with a name has one, right above its first line, and its path is made of the names of the
packages around it and of its own name. -/
namespace Facade
open Source (nativeMark scopeMark fileHeader rootName quoteName objectLine beginsWith
  beginsWith_append beginsWith_objectLine)

/-! ## Paths -/

namespace Container

/-- A package has its annotation for what is left in it, and a trait has none. -/
def isAnnotated (c : Container) : Bool :=
  match c.head with
  | .package name => !name.isEmpty && c.members.any (!·.isContainer)
  | .object _ => true
  | .classOrTrait info => !info.isTrait

/-- The names that come before the path of what is in a container. A package without a name, as the
whole is, adds nothing. -/
def packageNames (c : Container) : List String :=
  match c.head with
  | .package name => if name.isEmpty then [] else [name]
  | .object _ | .classOrTrait _ => []

/-- A container has another one in it, below these packages from the outermost to the innermost. -/
inductive Reaches : Container → List String → Container → Prop where
  | self (c : Container) : Reaches c [] c
  | member {c d e : Container} {around : List String} :
      .container d ∈ c.members → Reaches d around e → Reaches c (c.packageNames ++ around) e

end Container

mutual

/-- What is annotated in a tree, with the path of each, in the order in which it is written. What
is left in a package comes after all else in it. -/
def Symbol.annotated : Symbol → List (List String × Container)
  | .container c => c.annotated
  | _ => []

def Container.annotated : Container → List (List String × Container)
  | ⟨head, members, index, companion⟩ =>
      let c : Container := ⟨head, members, index, companion⟩
      let own := if c.isAnnotated then [([c.name], c)] else []
      let below := (Symbol.allAnnotated members).map (Prod.map (c.packageNames ++ ·) id)
      if c.isPackage then below ++ own else own ++ below

def Symbol.allAnnotated : List Symbol → List (List String × Container)
  | [] => []
  | s :: rest => s.annotated ++ Symbol.allAnnotated rest

end

theorem Symbol.allAnnotated_eq (members : List Symbol) :
    allAnnotated members = members.flatMap annotated := by
  induction members with
  | nil => rfl
  | cons s rest ih => rw [allAnnotated, ih, List.flatMap_cons]

theorem Symbol.mem_allAnnotated {members : List Symbol} {path : List String} {e : Container} :
    (path, e) ∈ allAnnotated members ↔
      ∃ d : Container, .container d ∈ members ∧ (path, e) ∈ d.annotated := by
  rw [allAnnotated_eq, List.mem_flatMap]
  constructor
  · rintro ⟨s, member, listed⟩
    cases s with
    | container d => exact ⟨d, member, listed⟩
    | comment text | field name type | method m => contradiction
  · rintro ⟨d, member, listed⟩
    exact ⟨.container d, member, listed⟩

namespace Container

variable {c e : Container} {path : List String}

theorem mem_annotated_iff : (path, e) ∈ c.annotated ↔
    (c.isAnnotated = true ∧ path = [c.name] ∧ e = c) ∨
      ∃ inner, (inner, e) ∈ Symbol.allAnnotated c.members ∧ path = c.packageNames ++ inner := by
  have own : (path, e) ∈ (if c.isAnnotated then [([c.name], c)] else []) ↔
      c.isAnnotated = true ∧ path = [c.name] ∧ e = c := by
    split <;> simp_all
  have below : (path, e) ∈ (Symbol.allAnnotated c.members).map (Prod.map (c.packageNames ++ ·) id) ↔
      ∃ inner, (inner, e) ∈ Symbol.allAnnotated c.members ∧ path = c.packageNames ++ inner := by
    simp only [List.mem_map, Prod.exists, Prod.map_apply, id, Prod.mk.injEq]
    constructor
    · rintro ⟨inner, _, listed, rfl, rfl⟩
      exact ⟨inner, listed, rfl⟩
    · rintro ⟨inner, listed, rfl⟩
      exact ⟨inner, e, listed, rfl, rfl⟩
  rw [← own, ← below]
  obtain ⟨head, members, index, companion⟩ := c
  unfold annotated
  dsimp only
  split
  · rw [List.mem_append, or_comm]
  · rw [List.mem_append]

/-- A path is made of the names of the packages around what it is for, and of its name. -/
theorem mem_annotated : (path, e) ∈ c.annotated ↔
    ∃ around, c.Reaches around e ∧ e.isAnnotated = true ∧ path = around ++ [e.name] := by
  induction c using Container.induct generalizing path with
  | step c ih =>
    rw [mem_annotated_iff]
    constructor
    · rintro (⟨annotated, rfl, rfl⟩ | ⟨inner, listed, rfl⟩)
      · exact ⟨[], .self _, annotated, rfl⟩
      · obtain ⟨d, member, listed⟩ := Symbol.mem_allAnnotated.mp listed
        obtain ⟨around, reaches, annotated, rfl⟩ := (ih d member).mp listed
        exact ⟨_, .member member reaches, annotated, (List.append_assoc _ _ _).symm⟩
    · rintro ⟨around, reaches, annotated, rfl⟩
      cases reaches with
      | self => exact .inl ⟨annotated, rfl, rfl⟩
      | member member reaches =>
        refine .inr ⟨_, Symbol.mem_allAnnotated.mpr ⟨_, member, ?_⟩, List.append_assoc _ _ _⟩
        exact (ih _ member).mpr ⟨_, reaches, annotated, rfl⟩

theorem map_packageNames_nil (own : c.packageNames = []) (l : List (List String × Container)) :
    l.map (Prod.map (c.packageNames ++ ·) id) = l := by
  rw [own]
  exact List.map_id l

section Heads

variable (members : List Symbol) (index : Index) (companion : Option Key)

theorem annotated_root :
    annotated ⟨.package "", members, index, companion⟩ = Symbol.allAnnotated members := by
  unfold annotated
  dsimp only
  rw [map_packageNames_nil rfl]
  exact List.append_nil _

theorem annotated_package {name : String} (named : name ≠ "") :
    annotated ⟨.package name, members, index, companion⟩ = (Symbol.allAnnotated members ++
      if members.any (!·.isContainer) then
        [([], (⟨.package name, members, index, companion⟩ : Container))]
      else []).map (Prod.map (name :: ·) id) := by
  have unnamed : name.isEmpty = false := by simpa using named
  have names : packageNames ⟨.package name, members, index, companion⟩ = [name] := by
    simp [packageNames, unnamed]
  have some : isAnnotated ⟨.package name, members, index, companion⟩ =
      members.any (!·.isContainer) := by
    simp [isAnnotated, unnamed]
  unfold annotated
  dsimp only
  rw [names, some, List.map_append]
  cases members.any (!·.isContainer) <;> rfl

theorem annotated_object (name : String) :
    annotated ⟨.object name, members, index, companion⟩ =
      ([name], ⟨.object name, members, index, companion⟩) :: Symbol.allAnnotated members := by
  unfold annotated
  dsimp only
  rw [map_packageNames_nil rfl]
  rfl

theorem annotated_classOrTrait (info : ClassHead) :
    annotated ⟨.classOrTrait info, members, index, companion⟩ =
      (if info.isTrait then [] else [([info.name], ⟨.classOrTrait info, members, index, companion⟩)])
        ++ Symbol.allAnnotated members := by
  have own : isAnnotated ⟨.classOrTrait info, members, index, companion⟩ = !info.isTrait := rfl
  unfold annotated
  dsimp only
  rw [map_packageNames_nil rfl, own]
  cases info.isTrait <;> rfl

end Heads

end Container

/-! ## Lines above others -/

section Followed

variable {α β γ δ : Type} {read : α → Option β}

/-- What is read in a list, each with what comes next. -/
def followed (read : α → Option β) : List α → List (β × Option α)
  | [] => []
  | a :: rest =>
      match read a with
      | some b => (b, rest.head?) :: followed read rest
      | none => followed read rest

theorem followed_eq_nil {l : List α} (none : ∀ a ∈ l, read a = none) : followed read l = [] := by
  induction l with
  | nil => rfl
  | cons a l ih =>
    obtain ⟨first, others⟩ := List.forall_mem_cons.mp none
    rw [followed, first]
    exact ih others

theorem map_fst_followed (l : List α) : (followed read l).map Prod.fst = l.filterMap read := by
  induction l with
  | nil => rfl
  | cons a l ih =>
    rw [followed]
    cases found : read a with
    | none => rw [List.filterMap_cons_none found, ← ih]
    | some b => rw [List.filterMap_cons_some found, ← ih, List.map_cons]

theorem followed_append {l : List α} (last : ∀ a ∈ l.getLast?, read a = none) (rest : List α) :
    followed read (l ++ rest) = followed read l ++ followed read rest := by
  induction l with
  | nil => rfl
  | cons a l ih =>
    cases l with
    | nil =>
      have none : read a = none := last a rfl
      simp only [List.cons_append, List.nil_append, followed, none]
    | cons b l =>
      have same := ih (by simpa only [List.getLast?_cons_cons] using last)
      rw [List.cons_append, followed, followed, same]
      cases read a <;> rfl

theorem followed_map {f : α → γ} {reads : γ → Option δ} {lift : β → δ} {l : List α}
    (lifts : ∀ a ∈ l, reads (f a) = (read a).map lift) :
    followed reads (l.map f) = (followed read l).map (Prod.map lift (Option.map f)) := by
  induction l with
  | nil => rfl
  | cons a l ih =>
    obtain ⟨first, others⟩ := List.forall_mem_cons.mp lifts
    rw [List.map_cons, followed, followed, first, ih others, List.head?_map]
    cases read a <;> rfl

end Followed

/-- The first line of what is annotated: of the object for what is left in a package, or of a
definition, which has no brace if there is nothing in it. -/
inductive Container.FirstLine (c : Container) : String → Prop where
  | loose {name : String} :
      c.head = .package name → c.FirstLine (objectLine (Text.capitalize name) ++ " \x7b")
  | bare {header : String} : c.Headed header → c.members = [] → c.FirstLine header
  | block {header : String} : c.Headed header → c.members ≠ [] → c.FirstLine (header ++ " \x7b")

theorem Container.FirstLine.begins {c : Container} {text : String} (first : c.FirstLine text) :
    beginsWith ["object ", "trait ", "class "] text.toList = true := by
  cases first with
  | loose _ => exact beginsWith_append (beginsWith_objectLine (by decide) _) _
  | bare headed _ => exact headed.begins
  | block headed _ => exact beginsWith_append headed.begins _

/-- The line of a content is the first one of a container. -/
def LineContent.Starts (c : Container) (content : LineContent) : Prop :=
  content.global? = none ∧ c.FirstLine (content.text [])

namespace Sheet

/-- An annotation is for a container if it has its path and the first line of the container is the
next one. -/
def Annotates (shown : List String × Container) (written : List String × Option SheetLine) : Prop :=
  written.1 = shown.1 ∧ ∃ line ∈ written.2, line.content.Starts shown.2

/-- The annotations of a sheet are those of these containers, in this order. -/
def Tells (shown : List (List String × Container)) (sheet : Sheet) : Prop :=
  ∀ lines, sheet = .ok lines →
    List.Forall₂ Annotates shown (followed (·.content.global?) lines) ∧
      ∀ line ∈ lines.getLast?, line.content.global? = none

variable {shown rest : List (List String × Container)} {sheet next : Sheet}

/-- The paths of the annotations are those of what they are for. -/
theorem Tells.filterMap_global? (tells : Tells shown sheet) {lines : List SheetLine}
    (made : sheet = .ok lines) :
    lines.filterMap (·.content.global?) = shown.map Prod.fst := by
  have paths : List.Forall₂ (· = ·) (shown.map Prod.fst)
      ((followed (·.content.global?) lines).map Prod.fst) := by
    rw [List.forall₂_map_left_iff, List.forall₂_map_right_iff]
    exact (tells lines made).1.imp fun _ _ both => both.1.symm
  rw [List.forall₂_eq_eq_eq] at paths
  rw [paths, map_fst_followed]

theorem tells_nothing (plain : Every (·.global? = none) sheet) : Tells [] sheet := by
  intro lines made
  refine ⟨?_, fun line last => plain lines made line (List.mem_of_getLast? last)⟩
  rw [followed_eq_nil (plain lines made)]
  exact .nil

theorem tells_lines {contents : List LineContent}
    (plain : ∀ content ∈ contents, content.global? = none) : Tells [] (lines contents) :=
  tells_nothing (every_lines plain)

theorem Tells.append (first : Tells shown sheet) (second : Tells rest next) :
    Tells (shown ++ rest) (sheet.append next) := by
  intro all made
  obtain ⟨front, here, back, there, rfl⟩ := append_eq_ok.mp made
  obtain ⟨above, last⟩ := first front here
  obtain ⟨below, final⟩ := second back there
  refine ⟨?_, fun line listed => ?_⟩
  · rw [followed_append last]
    exact List.rel_append above below
  · rw [List.getLast?_append] at listed
    rcases Option.or_eq_some_iff.mp listed with own | ⟨_, own⟩
    · exact final line own
    · exact last line own

theorem Tells.bind {α : Type} {made : Except TypeFault α} {sheets : α → Sheet}
    (each : ∀ whole, made = .ok whole → Tells shown (sheets whole)) :
    Tells shown (made >>= sheets) := forall_lines_bind each

/-- The lines can be moved if those that are no annotations say the same there. -/
theorem Tells.map {f : SheetLine → SheetLine} {lift : List String → List String}
    (lifts : ∀ line, (f line).content.global? = line.content.global?.map lift)
    (kept : ∀ line, line.content.global? = none → (f line).content = line.content)
    (tells : Tells shown sheet) :
    Tells (shown.map (Prod.map lift id)) (sheet.map (List.map f)) := by
  intro lines made
  obtain ⟨inner, here, rfl⟩ := map_eq_ok.mp made
  obtain ⟨annotated, last⟩ := tells inner here
  have moved : followed (·.content.global?) (inner.map f) =
      (followed (·.content.global?) inner).map (Prod.map lift (Option.map f)) :=
    followed_map fun line _ => lifts line
  refine ⟨?_, fun line listed => ?_⟩
  · rw [moved, List.forall₂_map_left_iff, List.forall₂_map_right_iff]
    refine annotated.imp fun a b both => ?_
    obtain ⟨path, line, next, starts⟩ := both
    refine ⟨congrArg lift path, f line, Option.mem_map_of_mem f next, ?_⟩
    rw [LineContent.Starts, kept line starts.1]
    exact starts
  · rw [List.getLast?_map] at listed
    obtain ⟨line, own, rfl⟩ := Option.map_eq_some_iff.mp listed
    rw [lifts, last line own]
    rfl

theorem Tells.deeper (tells : Tells shown sheet) : Tells shown sheet.deeper := by
  have same : Tells (shown.map (Prod.map id id)) sheet.deeper :=
    tells.map (fun line => (Option.map_id_apply).symm) fun line _ => rfl
  rwa [Prod.map_id, List.map_id] at same

theorem Tells.under (tells : Tells shown sheet) (name : String) :
    Tells (shown.map (Prod.map (name :: ·) id)) (sheet.under name) := by
  apply tells.map
  · exact fun line => line.content.global?_under name
  · intro line plain
    obtain ⟨depth, content⟩ := line
    cases content with
    | global path => contradiction
    | plain text | opening first | closing | member s text => rfl

theorem Tells.enclosed (tells : Tells shown sheet) (opening : Opening) :
    Tells shown (Sheet.enclosed opening sheet) := by
  have opens : Tells [] (lines [.opening opening]) :=
    tells_lines (List.forall_mem_singleton.mpr rfl)
  have closes : Tells [] (lines [.closing]) := tells_lines (List.forall_mem_singleton.mpr rfl)
  have whole := opens.append (tells.append closes)
  rwa [List.nil_append, List.append_nil] at whole

theorem Tells.block {opening : Opening} (tells : Tells shown sheet) :
    Tells shown (Sheet.block opening sheet) := tells.deeper.enclosed opening

/-- The annotation of what comes next. -/
theorem Tells.annotated {c : Container} {path : List String} (tells : Tells shown sheet)
    (first : ∀ lines, sheet = .ok lines → ∃ line ∈ lines.head?, line.content.Starts c) :
    Tells ((path, c) :: shown)
      ((lines [.plain "", .plain nativeMark, .global path]).append sheet) := by
  intro all made
  obtain ⟨_, ⟨⟩, back, there, rfl⟩ := append_eq_ok.mp made
  obtain ⟨annotated, last⟩ := tells back there
  obtain ⟨line, head, starts⟩ := first back there
  refine ⟨.cons ⟨rfl, line, head, starts⟩ annotated, fun final listed => ?_⟩
  have some : back.getLast?.isSome := by
    rw [List.getLast?_isSome]
    rintro rfl
    contradiction
  rw [List.getLast?_append, Option.or_of_isSome some] at listed
  exact last final listed

end Sheet

section Members

variable {outputPackage : String} {members : List Symbol} {c : Container}

theorem Symbol.annotated_leaf {s : Symbol} (leaf : s.isContainer = false) : s.annotated = [] := by
  cases s with
  | container c => contradiction
  | comment text | field name type | method m => rfl

theorem Symbol.tells_leaf {s : Symbol} (leaf : s.isContainer = false) (outputPackage : String) :
    Sheet.Tells s.annotated (s.sheet outputPackage) := by
  rw [annotated_leaf leaf]
  exact Sheet.tells_nothing (every_leaf leaf fun _ _ => rfl)

theorem Symbol.allAnnotated_standing (members : List Symbol) :
    allAnnotated (members.filter (·.isContainer)) = allAnnotated members := by
  induction members with
  | nil => rfl
  | cons s rest ih =>
    by_cases standing : s.isContainer = true
    · rw [List.filter_cons_of_pos standing, allAnnotated, allAnnotated, ih]
    · rw [List.filter_cons_of_neg standing, ih, allAnnotated,
        annotated_leaf (Bool.eq_false_iff.mpr standing), List.nil_append]

theorem Symbol.allAnnotated_loose (members : List Symbol) :
    allAnnotated (members.filter (!·.isContainer)) = [] := by
  rw [allAnnotated_eq, List.flatMap_eq_nil_iff]
  intro s listed
  exact annotated_leaf (by simpa using (List.mem_filter.mp listed).2)

theorem Symbol.tells_all
    (each : ∀ s ∈ members, Sheet.Tells s.annotated (s.sheet outputPackage)) :
    Sheet.Tells (allAnnotated members) (sheetAll outputPackage members) := by
  induction members with
  | nil => exact Sheet.tells_lines nofun
  | cons s rest ih =>
    have others := ih fun t listed => each t (.tail _ listed)
    exact (each s (.head _)).append others

theorem Symbol.tells_filter
    (each : ∀ s ∈ members, Sheet.Tells s.annotated (s.sheet outputPackage))
    (kept : Symbol → Bool) :
    Sheet.Tells (allAnnotated (members.filter kept))
      (sheetAll outputPackage (members.filter kept)) :=
  tells_all fun s listed => each s (List.mem_filter.mp listed).1

theorem Symbol.tells_definition
    (each : ∀ s ∈ members, Sheet.Tells s.annotated (s.sheet outputPackage)) (head : Head)
    (header : String) :
    Sheet.Tells (allAnnotated members)
      (Sheet.definition head header members.isEmpty (sheetAll outputPackage members)) := by
  unfold Sheet.definition
  split
  · next none =>
    obtain rfl := List.isEmpty_iff.mp none
    exact Sheet.tells_lines (List.forall_mem_singleton.mpr rfl)
  · exact (tells_all each).block

/-- What is left in a package writes its annotation, if there is anything left. -/
theorem Container.tells_loose {name : String} (head : c.head = .package name)
    (each : ∀ s ∈ c.members, Sheet.Tells s.annotated (s.sheet outputPackage)) :
    Sheet.Tells (if c.members.any (!·.isContainer) then [([], c)] else [])
      (Sheet.loose name c.members (.global [])
        (Symbol.sheetAll outputPackage (c.members.filter (!·.isContainer)))) := by
  have body := Symbol.tells_filter each (!·.isContainer)
  rw [Symbol.allAnnotated_loose] at body
  unfold Sheet.loose
  split
  · refine body.block.annotated fun lines made => ?_
    obtain ⟨inner, _, rfl⟩ := Sheet.enclosed_eq_ok.mp made
    exact ⟨_, rfl, rfl, .loose head⟩
  · exact Sheet.tells_lines nofun

/-- What is left in the whole is annotated without a path. -/
theorem Symbol.tells_scope (title : String)
    (each : ∀ s ∈ members, Sheet.Tells s.annotated (s.sheet outputPackage)) :
    Sheet.Tells []
      (Sheet.loose title members (.plain Source.scopeMark)
        (sheetAll outputPackage (members.filter (!·.isContainer)))) := by
  have body := tells_filter each (!·.isContainer)
  rw [allAnnotated_loose] at body
  unfold Sheet.loose
  split
  · have marks : Sheet.Tells []
        (Sheet.lines [.plain "", .plain nativeMark, .plain Source.scopeMark]) :=
      Sheet.tells_lines (by simp [LineContent.global?])
    exact marks.append body.block
  · exact Sheet.tells_lines nofun

theorem Symbol.tells_inside {own : List (List String × Container)} {title : String}
    {mark : LineContent} (each : ∀ s ∈ members, Sheet.Tells s.annotated (s.sheet outputPackage))
    (left : Sheet.Tells own (Sheet.loose title members mark
      (sheetAll outputPackage (members.filter (!·.isContainer)))))
    (none : members = [] → own = []) :
    Sheet.Tells (allAnnotated members ++ own)
      (Sheet.inside outputPackage title mark members) := by
  have standing := tells_filter each (·.isContainer)
  rw [allAnnotated_standing] at standing
  have blank : Sheet.Tells [] (Sheet.lines [.plain ""]) :=
    Sheet.tells_lines (List.forall_mem_singleton.mpr rfl)
  unfold Sheet.inside
  split
  · next empty =>
    obtain rfl := List.isEmpty_iff.mp empty
    rw [none rfl]
    exact Sheet.tells_lines nofun
  · have block := (standing.append (left.append blank)).enclosed
      ⟨.package title, "package " ++ quoteName title⟩
    have whole := blank.append block
    rw [List.nil_append, List.append_nil] at whole
    exact whole

theorem Container.starts_definition {header : String} {head : Head} {body : Sheet}
    (headed : c.Headed header) :
    ∀ lines, Sheet.definition head header c.members.isEmpty body = .ok lines →
      ∃ line ∈ lines.head?, line.content.Starts c := by
  intro lines made
  unfold Sheet.definition at made
  split at made
  · next none =>
    obtain rfl := Except.ok.inj made
    exact ⟨_, rfl, rfl, .bare headed (List.isEmpty_iff.mp none)⟩
  · next some =>
    obtain ⟨inner, _, rfl⟩ := Sheet.enclosed_eq_ok.mp made
    exact ⟨_, rfl, rfl, .block headed (mt List.isEmpty_iff.mpr some)⟩

namespace Container

variable (index : Index) (companion : Option Key)
  (each : ∀ s ∈ members, Sheet.Tells s.annotated (s.sheet outputPackage))

include each

theorem tells_package (name : String) :
    Sheet.Tells (annotated ⟨.package name, members, index, companion⟩)
      (sheet outputPackage ⟨.package name, members, index, companion⟩) := by
  by_cases root : name = ""
  · subst root
    have first : Sheet.Tells [] (Sheet.lines ((fileHeader outputPackage).map .plain)) := by
      apply Sheet.tells_lines
      intro content listed
      obtain ⟨text, _, rfl⟩ := List.mem_map.mp listed
      rfl
    have inside := Symbol.tells_inside each (Symbol.tells_scope (rootName outputPackage) each)
      fun _ => rfl
    rw [List.append_nil] at inside
    rw [annotated_root, (sheet_package outputPackage "" members index companion).trans (if_pos rfl)]
    exact first.append inside
  · have unnamed : ¬ name.isEmpty = true := by simpa using root
    have left := tells_loose (c := ⟨.package name, members, index, companion⟩) rfl each
    rw [annotated_package members index companion root,
      (sheet_package outputPackage name members index companion).trans (if_neg unnamed)]
    exact (Symbol.tells_inside each left fun none => by rw [none]; rfl).under name

theorem tells_object (name : String) :
    Sheet.Tells (annotated ⟨.object name, members, index, companion⟩)
      (sheet outputPackage ⟨.object name, members, index, companion⟩) := by
  have headed : Headed ⟨.object name, members, index, companion⟩ (objectLine name) := rfl
  rw [annotated_object]
  unfold sheet
  exact (Symbol.tells_definition each _ _).annotated (starts_definition headed)

/-- A trait has no annotation with a path, and the first line of a class is below its one. -/
theorem tells_classOrTrait (info : ClassHead) :
    Sheet.Tells (annotated ⟨.classOrTrait info, members, index, companion⟩)
      (sheet outputPackage ⟨.classOrTrait info, members, index, companion⟩) := by
  have body (header : String) := Symbol.tells_definition each (.classOrTrait info) header
  rw [annotated_classOrTrait]
  unfold sheet
  cases trait : info.isTrait with
  | true =>
    have marks : Sheet.Tells [] (Sheet.lines [.plain "", .plain nativeMark]) :=
      Sheet.tells_lines (by simp [LineContent.global?])
    have none : Sheet.Tells [] (Sheet.lines []) := Sheet.tells_lines nofun
    exact marks.append (none.append (.bind fun header _ => body header))
  | false =>
    rw [← Sheet.append_assoc]
    refine Sheet.Tells.annotated (.bind fun header _ => body header) fun lines made => ?_
    obtain ⟨header, headed, made⟩ := bind_eq_ok.mp made
    exact starts_definition (c := ⟨.classOrTrait info, members, index, companion⟩) headed lines made

end Container

end Members

/-- Each annotation with a path is right above what it is for. -/
theorem Container.tells_annotated (outputPackage : String) (c : Container) :
    Sheet.Tells c.annotated (c.sheet outputPackage) := by
  induction c using Container.induct with
  | step c ih =>
    obtain ⟨head, members, index, companion⟩ := c
    have each : ∀ s ∈ members, Sheet.Tells s.annotated (s.sheet outputPackage) := by
      intro s listed
      cases s with
      | container d => exact ih d listed
      | comment text | field name type | method m => exact Symbol.tells_leaf rfl outputPackage
    cases head with
    | package name => exact tells_package index companion each name
    | object name => exact tells_object index companion each name
    | classOrTrait info => exact tells_classOrTrait index companion each info

/-! ## The paths alone -/

namespace Container

variable {c : Container}

/-- The paths that a tree is annotated with are those of what is annotated in it. -/
theorem globals_eq (c : Container) : c.globals = c.annotated.map Prod.fst := by
  induction c using Container.induct with
  | step c ih =>
    obtain ⟨head, members, index, companion⟩ := c
    have below : Symbol.allGlobals members = (Symbol.allAnnotated members).map Prod.fst := by
      rw [Symbol.allGlobals_eq, Symbol.allAnnotated_eq, List.map_flatMap]
      apply List.flatMap_congr
      intro s member
      cases s with
      | container d => exact ih d member
      | comment text | field name type | method m => rfl
    unfold globals
    cases head with
    | package name =>
      dsimp only
      rw [below]
      by_cases root : name = ""
      · subst root
        rw [annotated_root]
        rfl
      · rw [if_neg (by simpa using root), annotated_package members index companion root]
        cases members.any (!·.isContainer) <;> simp [Function.comp_def]
    | object name =>
      rw [annotated_object]
      exact congrArg ([name] :: ·) below
    | classOrTrait info =>
      dsimp only
      rw [annotated_classOrTrait, below]
      cases info.isTrait <;> rfl

theorem shows_globals (outputPackage : String) (c : Container) :
    Sheet.Shows LineContent.global? c.globals (c.sheet outputPackage) := by
  intro lines made
  rw [globals_eq]
  exact (c.tells_annotated outputPackage).filterMap_global? made

theorem name_of_mem_packageNames {part : String} (listed : part ∈ c.packageNames) :
    c.name = part := by
  obtain ⟨head, members, index, companion⟩ := c
  cases head with
  | package name =>
    unfold packageNames at listed
    dsimp only at listed
    split at listed
    · contradiction
    · exact (List.mem_singleton.mp listed).symm
  | object name | classOrTrait info => contradiction

theorem Reaches.inside {around : List String} {e : Container} (reaches : c.Reaches around e) :
    e.Inside c := by
  induction reaches with
  | self c => exact .self c
  | member member _ ih => exact .member member ih

theorem Reaches.exists_of_mem {around : List String} {e : Container}
    (reaches : c.Reaches around e) {part : String} (listed : part ∈ around) :
    ∃ d : Container, d.Inside c ∧ d.name = part := by
  induction reaches with
  | self c => contradiction
  | @member c d e around member _ ih =>
    rcases List.mem_append.mp listed with own | deep
    · exact ⟨c, .self c, name_of_mem_packageNames own⟩
    · obtain ⟨d, inside, name⟩ := ih deep
      exact ⟨d, .member member inside, name⟩

/-- The paths of annotations are made of the names of containers. -/
theorem exists_of_mem_globals {path : List String} (listed : path ∈ c.globals) {part : String}
    (inside : part ∈ path) : ∃ d : Container, d.Inside c ∧ d.name = part := by
  rw [globals_eq] at listed
  obtain ⟨⟨_, e⟩, annotated, rfl⟩ := List.mem_map.mp listed
  obtain ⟨around, reaches, _, rfl⟩ := mem_annotated.mp annotated
  rcases List.mem_append.mp inside with above | own
  · exact reaches.exists_of_mem above
  · exact ⟨e, reaches.inside, (List.mem_singleton.mp own).symm⟩

end Container

end Facade
