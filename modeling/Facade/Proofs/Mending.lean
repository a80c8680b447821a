import Facade.Proofs.Sheet

/-! What has been written when a fault ends the printing. Each line that cannot be made has one that
can in the mended tree, which is otherwise the same. So the mended tree is printed to its end, and
what was written before the fault is how its facade begins. -/
namespace Facade
open PenM Source

/-! ## Mended trees -/

theorem exists_of_isOk {α : Type} {made : Except TypeFault α} (whole : made.isOk = true) :
    ∃ result, made = .ok result := by
  cases made with
  | ok result => exact ⟨result, rfl⟩
  | error fault => contradiction

/-- The type of a field that has a line. -/
def Source.mendedType (name : String) (type : HostType) : HostType :=
  if (fieldLine name type).isOk then type else .any

def Method.mended (m : Method) : Method :=
  if m.line?.isOk then m else ⟨m.name, [], [], .any, m.bracket⟩

def ClassHead.mended (info : ClassHead) : ClassHead :=
  if info.line.isOk then info else { info with typeParams := [], parents := [] }

def Head.mended : Head → Head
  | .classOrTrait info => .classOrTrait info.mended
  | head => head

mutual

def Symbol.mended : Symbol → Symbol
  | .comment text => .comment text
  | .field name type => .field name (mendedType name type)
  | .method m => .method m.mended
  | .container c => .container c.mended

def Container.mended : Container → Container
  | ⟨head, members, index, companion⟩ => ⟨head.mended, Symbol.mendedAll members, index, companion⟩

def Symbol.mendedAll : List Symbol → List Symbol
  | [] => []
  | s :: rest => s.mended :: Symbol.mendedAll rest

end

theorem Symbol.mendedAll_eq (members : List Symbol) :
    Symbol.mendedAll members = members.map Symbol.mended := by
  induction members with
  | nil => rfl
  | cons s rest ih => exact congrArg (s.mended :: ·) ih

theorem Symbol.isContainer_mended (s : Symbol) : s.mended.isContainer = s.isContainer := by
  cases s <;> rfl

theorem Symbol.isEmpty_mendedAll (members : List Symbol) :
    (Symbol.mendedAll members).isEmpty = members.isEmpty := by
  cases members <;> rfl

theorem Symbol.any_mendedAll (members : List Symbol) :
    (Symbol.mendedAll members).any (!·.isContainer) = members.any (!·.isContainer) := by
  rw [Symbol.mendedAll_eq, List.any_map]
  congr 1
  funext s
  exact congrArg (!·) s.isContainer_mended

theorem Container.members_mended (c : Container) :
    c.mended.members = Symbol.mendedAll c.members := by
  cases c
  rfl

/-! ## Beginnings -/

/-- One action comes to its end. The other leaves the same pen, or a fault ends it and it has then
written the first lines of what the whole writes. -/
def Begins (action whole : PenM Unit) : Prop :=
  ∀ pen : Pen, ∃ after, whole.run pen = .ok () after ∧ pen.lines <+: after.lines ∧
    match action.run pen with
    | .ok _ done => done = after
    | .error _ broken => pen.lines <+: broken.lines ∧ broken.lines <+: after.lines

namespace Begins

variable {action whole next rest : PenM Unit}

theorem change {f : Pen → Pen} (kept : ∀ pen : Pen, pen.lines <+: (f pen).lines) :
    Begins (modify f) (modify f) := fun pen => ⟨f pen, rfl, kept pen, rfl⟩

theorem turn {f : Pen → Pen} (kept : ∀ pen : Pen, (f pen).lines = pen.lines) :
    Begins (modify f) (modify f) := change fun pen => kept pen ▸ List.prefix_rfl

theorem nothing : Begins (pure ()) (pure ()) := fun pen => ⟨pen, rfl, List.prefix_rfl, rfl⟩

theorem seq (first : Begins action whole) (second : Begins next rest) :
    Begins (action >>= fun _ => next) (whole >>= fun _ => rest) := by
  intro pen
  obtain ⟨middle, ran, kept, begun⟩ := first pen
  obtain ⟨after, ended, more, continued⟩ := second middle
  refine ⟨after, by rw [EStateM.run_bind, ran]; exact ended, kept.trans more, ?_⟩
  rw [EStateM.run_bind]
  cases done : action.run pen with
  | ok _ pen' =>
    rw [done] at begun
    obtain rfl : pen' = middle := begun
    dsimp only
    cases finished : next.run pen' with
    | ok _ last =>
      rw [finished] at continued
      exact continued
    | error fault broken =>
      rw [finished] at continued
      exact ⟨kept.trans continued.1, continued.2⟩
  | error fault broken =>
    rw [done] at begun
    exact ⟨begun.1, begun.2.trans more⟩

theorem reads {use uses : Pen → PenM Unit} (each : ∀ pen, Begins (use pen) (uses pen)) :
    Begins (get >>= use) (get >>= uses) := by
  intro pen
  rw [EStateM.run_bind, EStateM.run_bind, EStateM.run_get]
  exact each pen pen

/-- The fault comes before anything is written. -/
theorem make {α : Type} {made mended : Except TypeFault α} {use uses : α → PenM Unit}
    (total : ∃ result, mended = .ok result)
    (same : ∀ result, made = .ok result → mended = .ok result)
    (each : ∀ result, Begins (use result) (uses result)) :
    Begins (PenM.make made >>= use) (PenM.make mended >>= uses) := by
  obtain ⟨result, rfl⟩ := total
  intro pen
  cases made with
  | ok written =>
    obtain rfl := Except.ok.inj (same written rfl)
    exact each _ pen
  | error fault =>
    obtain ⟨after, ran, kept, _⟩ := each result pen
    exact ⟨after, ran, kept, List.prefix_rfl, kept⟩

theorem line (text : String) : Begins (PenM.line text) (PenM.line text) :=
  change fun _ => List.prefix_append _ _

theorem lines (texts : List String) : Begins (PenM.lines texts) (PenM.lines texts) := by
  induction texts with
  | nil => exact nothing
  | cons text texts ih => exact (line text).seq ih

theorem indented (body : Begins action whole) :
    Begins (PenM.indented action) (PenM.indented whole) := by
  refine reads fun _ => seq (turn ?_) (body.seq (turn ?_)) <;>
  · intro pen
    rfl

theorem package (inside : Begins action whole) (name : String) :
    Begins (enterPackage name >>= fun _ => action >>= fun _ => leavePackage)
      (enterPackage name >>= fun _ => whole >>= fun _ => leavePackage) := by
  refine seq (turn ?_) (inside.seq (turn ?_)) <;>
  · intro pen
    rfl

theorem block (body : Begins action whole) (header : String) (empty : Bool) :
    Begins (Source.block header empty action) (Source.block header empty whole) := by
  cases empty with
  | true => exact line header
  | false => exact (line _).seq (body.indented.seq (line _))

theorem packageBlock {members mended : List Symbol} {looseMark : PenM String}
    (same : mended.any (!·.isContainer) = members.any (!·.isContainer))
    (mark : ∀ {use uses : PenM Unit}, Begins use uses →
      Begins (looseMark >>= fun text => PenM.line text >>= fun _ => use)
        (looseMark >>= fun text => PenM.line text >>= fun _ => uses))
    (standing : Begins action whole) (loose : Begins next rest) (name : String) :
    Begins (Source.packageBlock name members looseMark action next)
      (Source.packageBlock name mended looseMark whole rest) := by
  have closing : Begins (blank >>= fun _ => PenM.line "\x7d")
      (blank >>= fun _ => PenM.line "\x7d") := (line "").seq (line _)
  unfold Source.packageBlock
  rw [same]
  refine (line "").seq ((line _).seq (standing.seq ?_))
  split
  · exact (line "").seq ((line _).seq (mark ((loose.block _ false).seq closing)))
  · exact closing

end Begins

/-! ## Printing a tree and the mended tree -/

theorem Source.exists_fieldLine (name : String) (type : HostType) :
    ∃ text, fieldLine name (mendedType name type) = .ok text := by
  unfold mendedType
  split
  · exact exists_of_isOk ‹_›
  · exact ⟨_, rfl⟩

theorem Source.fieldLine_mended {name text : String} {type : HostType}
    (made : fieldLine name type = .ok text) :
    fieldLine name (mendedType name type) = .ok text := by
  rw [mendedType, made]
  exact made

theorem Method.exists_line_mended (m : Method) : ∃ text?, m.mended.line? = .ok text? := by
  unfold mended
  split
  · exact exists_of_isOk ‹_›
  · unfold line?
    split
    · exact ⟨none, rfl⟩
    · exact ⟨_, rfl⟩

theorem Method.line_mended {m : Method} {text? : Option String} (made : m.line? = .ok text?) :
    m.mended.line? = .ok text? := by
  rw [mended, made]
  exact made

namespace ClassHead

variable (info : ClassHead)

theorem exists_line_mended : ∃ header, info.mended.line = .ok header := by
  unfold mended
  split
  · exact exists_of_isOk ‹_›
  · exact ⟨_, rfl⟩

theorem line_mended {info : ClassHead} {header : String} (made : info.line = .ok header) :
    info.mended.line = .ok header := by
  rw [mended, made]
  exact made

theorem name_mended : info.mended.name = info.name := by
  unfold mended
  split <;> rfl

theorem isTrait_mended : info.mended.isTrait = info.isTrait := by
  unfold mended
  split <;> rfl

end ClassHead

theorem Container.name_mended (c : Container) : c.mended.name = c.name := by
  obtain ⟨head, members, index, companion⟩ := c
  cases head with
  | package name | object name => rfl
  | classOrTrait info => exact info.name_mended

namespace Begins

mutual

theorem symbol (s : Symbol) : Begins s.print s.mended.print := by
  cases s with
  | comment text => exact line _
  | field name type =>
    exact make (exists_fieldLine name type) (fun _ made => fieldLine_mended made) line
  | method m =>
    refine make m.exists_line_mended (fun text? made => Method.line_mended made) fun text? => ?_
    cases text? with
    | none => exact nothing
    | some text => exact line text
  | container c => exact container c

theorem container (c : Container) : Begins c.print c.mended.print := by
  obtain ⟨head, members, index, companion⟩ := c
  cases head with
  | package name =>
    have standing := standing members
    have loose := loose members
    unfold Container.mended Container.print
    dsimp only [Head.mended]
    rw [Symbol.isEmpty_mendedAll]
    split
    · refine reads fun pen => (lines _).seq ?_
      split
      · exact nothing
      · refine packageBlock (Symbol.any_mendedAll members) (fun use => ?_) standing loose _
        simp only [pure_bind]
        exact (line _).seq use
    · split
      · exact (nothing).package name
      · refine (packageBlock (Symbol.any_mendedAll members) (fun use => ?_) standing loose
          name).package name
        simp only [bind_assoc, pure_bind]
        exact reads fun pen => (line _).seq use
  | object name =>
    have body := (all members).block (objectLine name) members.isEmpty
    unfold Container.mended Container.print
    dsimp only [Head.mended]
    rw [Symbol.isEmpty_mendedAll]
    exact (line "").seq ((line _).seq (reads fun pen => (line _).seq body))
  | classOrTrait info =>
    have definition := make info.exists_line_mended (fun _ made => info.line_mended made)
      fun header => (all members).block header members.isEmpty
    unfold Container.mended Container.print
    dsimp only [Head.mended]
    rw [Symbol.isEmpty_mendedAll, info.isTrait_mended, info.name_mended]
    refine (line "").seq ((line _).seq ?_)
    split
    · exact definition
    · exact reads fun pen => (line _).seq definition

theorem all (members : List Symbol) :
    Begins (Symbol.printAll members) (Symbol.printAll (Symbol.mendedAll members)) := by
  cases members with
  | nil => exact nothing
  | cons s rest => exact (symbol s).seq (all rest)

theorem standing (members : List Symbol) :
    Begins (Symbol.printStanding members) (Symbol.printStanding (Symbol.mendedAll members)) := by
  cases members with
  | nil => exact nothing
  | cons s rest =>
    have first := symbol s
    have others := standing rest
    unfold Symbol.mendedAll Symbol.printStanding
    rw [s.isContainer_mended]
    split
    · exact first.seq others
    · exact nothing.seq others

theorem loose (members : List Symbol) :
    Begins (Symbol.printLoose members) (Symbol.printLoose (Symbol.mendedAll members)) := by
  cases members with
  | nil => exact nothing
  | cons s rest =>
    have first := symbol s
    have others := loose rest
    unfold Symbol.mendedAll Symbol.printLoose
    rw [s.isContainer_mended]
    split
    · exact nothing.seq others
    · exact first.seq others

end

end Begins

/-- The pen that an action leaves, also where a fault ends it. -/
def PenM.left (action : PenM Unit) (pen : Pen) : Pen :=
  match action.run pen with
  | .ok _ after => after
  | .error _ broken => broken

theorem Begins.left {action whole : PenM Unit} (begins : Begins action whole) (pen : Pen) :
    ∃ after, whole.run pen = .ok () after ∧ pen.lines <+: (action.left pen).lines ∧
      (action.left pen).lines <+: after.lines := by
  obtain ⟨after, ran, kept, begun⟩ := begins pen
  refine ⟨after, ran, ?_⟩
  unfold PenM.left
  cases done : action.run pen with
  | ok _ last =>
    rw [done] at begun
    obtain rfl : last = after := begun
    exact ⟨kept, List.prefix_rfl⟩
  | error fault broken =>
    rw [done] at begun
    exact begun

end Facade
