import Facade.Import

/-! Where a comment ends. The host language nests comments, so that a mark that opens one counts
inside a comment, too. The text of a placeholder closes nothing, but every opening mark in it
leaves the comment open by one more level, and then the lines that follow are part of it. -/
namespace Facade
open Ambient (Node)

namespace Source

/-- What follows a comment of which so many levels are open, as the host language reads it. -/
def afterComment : Nat → List Char → Option (List Char)
  | 0, rest => some rest
  | _ + 1, [] => none
  | depth + 1, '/' :: '*' :: rest => afterComment (depth + 2) rest
  | depth + 1, '*' :: '/' :: rest => afterComment depth rest
  | depth + 1, _ :: rest => afterComment (depth + 1) rest

/-- What follows the comment that a text begins with. -/
def skipComment? : List Char → Option (List Char)
  | '/' :: '*' :: rest => afterComment 1 rest
  | _ => none

/-- The number of marks in a text that open a comment. -/
def openings : List Char → Nat
  | [] => 0
  | '/' :: '*' :: rest => openings rest + 1
  | _ :: rest => openings rest

variable {c : Char} {rest : List Char}

/-- A character that begins neither mark is passed over. -/
theorem afterComment_cons {depth : Nat} (opens : c = '/' → rest.head? ≠ some '*')
    (closes : c = '*' → rest.head? ≠ some '/') :
    afterComment (depth + 1) (c :: rest) = afterComment (depth + 1) rest := by
  refine afterComment.eq_5 depth c rest ?_ ?_
  · rintro tail rfl rfl
    exact opens rfl rfl
  · rintro tail rfl rfl
    exact closes rfl rfl

theorem openings_cons (opens : c = '/' → rest.head? ≠ some '*') :
    openings (c :: rest) = openings rest := by
  refine openings.eq_3 c rest ?_
  rintro tail rfl rfl
  exact opens rfl rfl

theorem keepOpen_cons (closes : c = '*' → rest.head? ≠ some '/') :
    keepOpen (c :: rest) = c :: keepOpen rest := by
  refine keepOpen.eq_2 c rest ?_
  rintro tail rfl rfl
  exact closes rfl rfl

theorem head?_keepOpen (chars : List Char) : (keepOpen chars).head? = chars.head? := by
  unfold keepOpen
  split <;> rfl

/-- A closing mark is kept apart, and its slash is treated as if it stood alone. -/
theorem keepOpen_closing (rest : List Char) :
    keepOpen ('*' :: '/' :: rest) = '*' :: ' ' :: keepOpen ('/' :: rest) := by
  rw [keepOpen_cons (c := '/') nofun, keepOpen]

/-- Behind a star there is no slash any more. -/
theorem keepOpen_star (rest : List Char) :
    ∃ tail, keepOpen ('*' :: rest) = '*' :: tail ∧ tail.head? ≠ some '/' := by
  by_cases closes : rest.head? = some '/'
  · obtain ⟨tail, rfl⟩ := List.head?_eq_some_iff.mp closes
    exact ⟨' ' :: '/' :: keepOpen tail, rfl, by simp⟩
  · refine ⟨keepOpen rest, keepOpen_cons fun _ => closes, ?_⟩
    rwa [head?_keepOpen]

theorem head?_append_blank {chars : List Char} (other : chars.head? ≠ some c) (visible : c ≠ ' ')
    (rest : List Char) : (chars ++ ' ' :: rest).head? ≠ some c := by
  cases chars with
  | nil => simpa using visible.symm
  | cons d chars => exact other

/-- Reading a text that was kept from closing its comment opens a level at each of its marks. The
blank behind it keeps its last character away from the closing mark of the comment. -/
theorem afterComment_keepOpen (chars rest : List Char) (depth : Nat) :
    afterComment (depth + 1) (keepOpen chars ++ ' ' :: rest) =
      afterComment (depth + 1 + openings chars) (' ' :: rest) := by
  induction chars generalizing depth with
  | nil => rfl
  | cons c chars ih =>
    by_cases opens : c = '/' ∧ chars.head? = some '*'
    · obtain ⟨rfl, star⟩ := opens
      obtain ⟨tail, rfl⟩ := List.head?_eq_some_iff.mp star
      obtain ⟨kept, same, apart⟩ := keepOpen_star tail
      -- The star is read with the slash before it, and alone it would be passed over.
      have passed : afterComment (depth + 2) (kept ++ ' ' :: rest) =
          afterComment (depth + 2) (keepOpen ('*' :: tail) ++ ' ' :: rest) := by
        rw [same, List.cons_append]
        exact (afterComment_cons (c := '*') nofun
          fun _ => head?_append_blank apart (by decide) rest).symm
      have counted : openings ('/' :: '*' :: tail) = openings ('*' :: tail) + 1 := by
        rw [openings, openings_cons (c := '*') nofun]
      rw [keepOpen_cons (c := '/') nofun, same, List.cons_append, List.cons_append, afterComment,
        passed, ih, counted]
      congr 1
      omega
    · have unopened : c = '/' → chars.head? ≠ some '*' := fun slash star => opens ⟨slash, star⟩
      rw [openings_cons unopened, ← ih]
      by_cases closes : c = '*' ∧ chars.head? = some '/'
      · obtain ⟨rfl, slash⟩ := closes
        obtain ⟨tail, rfl⟩ := List.head?_eq_some_iff.mp slash
        rw [keepOpen_closing, List.cons_append, List.cons_append,
          afterComment_cons (c := '*') nofun (by simp), afterComment_cons (c := ' ') nofun nofun]
      · have unclosed : c = '*' → chars.head? ≠ some '/' := fun star slash => closes ⟨star, slash⟩
        rw [keepOpen_cons unclosed, List.cons_append]
        rw [← head?_keepOpen] at unopened unclosed
        exact afterComment_cons
          (fun slash => head?_append_blank (unopened slash) (by decide) rest)
          fun star => head?_append_blank (unclosed star) (by decide) rest

/-- The levels that the text of a comment opens are still open where its line is over. -/
theorem skipComment?_commentLine (text : String) (rest : List Char) :
    skipComment? ((commentLine text).toList ++ rest) =
      afterComment (openings text.toList) rest := by
  have chars : (commentLine text).toList ++ rest =
      '/' :: '*' :: ' ' :: (keepOpen text.toList ++ ' ' :: '*' :: '/' :: rest) := by
    simp [commentLine, String.toList_append]
  rw [chars, skipComment?, afterComment_cons (c := ' ') nofun nofun, afterComment_keepOpen,
    Nat.add_comm, afterComment_cons (c := ' ') nofun nofun, afterComment]

theorem openings_eq_zero {chars : List Char} : openings chars = 0 ↔ ¬ ['/', '*'] <:+: chars := by
  induction chars with
  | nil => simp [openings]
  | cons c chars ih =>
    rw [List.infix_cons_iff, not_or, ← ih]
    by_cases opens : c = '/' ∧ chars.head? = some '*'
    · obtain ⟨rfl, star⟩ := opens
      obtain ⟨tail, rfl⟩ := List.head?_eq_some_iff.mp star
      simp [openings]
    · have unopened : c = '/' → chars.head? ≠ some '*' := fun slash star => opens ⟨slash, star⟩
      rw [openings_cons unopened]
      refine ⟨fun none => ⟨?_, none⟩, And.right⟩
      rintro ⟨tail, same⟩
      obtain ⟨rfl, rfl⟩ := List.cons.inj same
      exact unopened rfl rfl

end Source

open Source (commentLine skipComment? afterComment openings)

/-- Whatever the text of a comment is, no level closes before its line is over. As many levels as
its text opens are left to what follows, so that the comment ends with its line exactly if the
text does not open any. -/
theorem comments_end (text : String) (pen : Pen) :
    ∃ line : String, (Symbol.comment text).print.run pen = .ok () (pen.put line) ∧
      (∀ rest, skipComment? (line.toList ++ rest) = afterComment (openings text.toList) rest) ∧
      ((∀ rest, skipComment? (line.toList ++ rest) = some rest) ↔
        ¬ ['/', '*'] <:+: text.toList) := by
  refine ⟨commentLine text, rfl, Source.skipComment?_commentLine text, ?_⟩
  rw [← Source.openings_eq_zero]
  constructor
  · intro closed
    have last := (Source.skipComment?_commentLine text []).symm.trans (closed [])
    cases levels : openings text.toList with
    | zero => rfl
    | succ depth =>
      rw [levels] at last
      contradiction
  · intro none rest
    rw [Source.skipComment?_commentLine, none, afterComment]

/-- The path of an import opens one more level, and the field in the line below is lost. -/
theorem comment_unclosed :
    let unknown : Node := .importDecl "m" "lib/*"
    let root := (importTree [unknown, .varDecl "x" (some (.core "number"))]).container
    let line := commentLine (placeholderText unknown)
    let below := "\n  var x: Double = js.native\n\x7d\n\n\x7d\n"
    (∃ above, (root.printed "p").text = above ++ line ++ below) ∧
      skipComment? (line.toList ++ below.toList) = none := by
  intro unknown root line below
  constructor
  · exact ⟨"\nimport scala.scalajs.js\nimport js.annotation._\n\npackage p \x7b\n\n@js.native\n" ++
      "@JSGlobalScope\nobject P extends js.Object \x7b\n  ", by decide +kernel⟩
  · rw [Source.skipComment?_commentLine]
    decide +kernel

end Facade
